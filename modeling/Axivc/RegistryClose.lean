import Axivc.RegistrySteps

/-!
# Axivc.RegistryClose

The steps that close a channel, and the steps of the files of a device.

A call that closes a channel takes control of a listed record that is not open
and leads it through its last phases, or hands it back.  A device that is open
cannot be taken, and one that is taken cannot be opened.
-/

namespace Axivc

namespace Registry

open Prog Rely

variable {Chan : Type} [DecidableEq Chan] {honest patient : Prop} {i v : Nat} {s t : State Chan}
  {channel : Option Chan} {mapping vdev : Option Nat} {reserved : Bool} {chan : Chan} {d : Vdev Chan} {p : Phase}

/-! ## the walk -/

theorem Phase.eq_listed {q : Phase} (hon : q.onList = true) (hremoving : q.isRemoving = false) : q = .listed := by
  cases q <;> simp [Phase.onList, Phase.isRemoving] at hon hremoving ⊢

/-- A record that the walk takes is the first it comes to, and neither open nor
being removed. -/
theorem first_of_walk (hw : s.walk chan = .taken v) : s.list.find? (s.hasChannel chan) = some v ∧
    ∃ d p, s.heap v = .live d p ∧ d.active = false ∧ d.removing = false := by
  rw [State.walk] at hw
  split at hw
  · cases hw
  · next w hf =>
    split at hw
    · next d p hd =>
      split at hw
      · cases hw
      · next hflags =>
        cases hw
        rw [Bool.not_eq_true, Bool.or_eq_false_iff] at hflags
        exact ⟨hf, d, p, hd, hflags⟩
    · cases hw

/-- A record that the walk takes is listed, and not open. -/
theorem walk_taken (h : Inv honest patient s) (hw : s.walk chan = .taken v) :
    ∃ d, s.heap v = .live d .listed ∧ d.active = false ∧ d.channel = chan ∧
      s.list.find? (s.hasChannel chan) = some v := by
  obtain ⟨hf, d, p, hd, hactive, hremoving⟩ := first_of_walk hw
  have hon := (h.shape.listed v).mp (List.mem_of_find?_eq_some hf)
  have hok := h.shape.ok v
  have hchan := List.find?_some hf
  rw [hd] at hon hok
  have hlisted : p = .listed := Phase.eq_listed hon (hok.1.symm.trans hremoving)
  refine ⟨d, by rw [hd, hlisted], hactive, ?_, hf⟩
  simpa [State.hasChannel, hd] using hchan

/-- The walk takes a listed record that is not open, if it comes to it first. -/
theorem walk_of_first (hf : s.list.find? (s.hasChannel chan) = some v) (hv : s.heap v = .live d p)
    (hactive : d.active = false) (hremoving : d.removing = false) : s.walk chan = .taken v := by
  rw [State.walk, hf]
  simp [hv, hactive, hremoving]

/-- The walk finds what it found when another record is taken off the list. -/
theorem find_erase {l : List Nat} {q : Nat → Bool} {w : Nat} (hf : l.find? q = some w) (hne : w ≠ v) :
    (l.erase v).find? q = some w := by
  induction l with
  | nil => cases hf
  | cons a l ih =>
      rw [List.find?_cons] at hf
      by_cases hav : a = v
      · rw [hav, List.erase_cons_head]
        cases hq : q a with
        | true =>
            rw [hq] at hf
            exact absurd ((Option.some.inj hf).symm.trans hav) hne
        | false =>
            rw [hq] at hf
            exact hf
      · rw [List.erase_cons_tail (by simpa using hav), List.find?_cons]
        cases hq : q a with
        | true =>
            rw [hq] at hf
            exact hf
        | false =>
            rw [hq] at hf
            exact ih hf

/-! ## the steps that close a channel -/

/-- A record is marked, and the call controls it. -/
theorem step_beginRemoval [Inhabited Chan] (h : Inv honest patient s) (hh : Holds i none none none false s)
    (hw : s.walk chan = .taken v) :
    Inv honest patient (after i s (.beginRemoval chan) (.taken v)) ∧
      Moves i s (after i s (.beginRemoval chan) (.taken v)) ∧
      Holds i none none (some v) false (after i s (.beginRemoval chan) (.taken v)) ∧
      (∃ d, (after i s (.beginRemoval chan) (.taken v)).heap v = .live d (.removing i) ∧ d.channel = chan) ∧
      (after i s (.beginRemoval chan) (.taken v)).list.find?
        ((after i s (.beginRemoval chan) (.taken v)).hasChannel chan) = some v := by
  obtain ⟨d, hv, hactive, hchan, hf⟩ := walk_taken h hw
  have hafter : after i s (.beginRemoval chan) (.taken v) = s.revise i v s.keys s.mapped s.list s.count
      (.live { d with removing := true } (.removing i)) s.reserved { s.held i with vdev := some v } := by
    simp only [after_beginRemoval]
    rw [onVdev_live hv]
    rfl
  rw [hafter]
  obtain ⟨hinv, hmoves⟩ := step_record h (i := i) (v := v) (c := .live { d with removing := true } (.removing i))
    (x := { s.held i with vdev := some v }) ⟨rfl, by simp [hactive]⟩
    (fun j hj => ⟨(Option.some.inj hj).symm, rfl⟩) (by simp [hh.vdev]) (by simp [hv, Cell.thread, Phase.thread])
    (by rw [hv]; rfl) (.inl rfl) (by simp [hv, Cell.isGone, Phase.isGone]) (by rw [hv]; rfl) (fun _ => by rw [hv]; rfl)
    (h.names_of_live hh.naming hv rfl rfl) (by simp [hh.naming]) ⟨rfl, by rw [hv]; rfl⟩ ⟨rfl, by rw [hv]; rfl⟩
  refine ⟨hinv, hmoves, .revise hh.channel hh.mapping rfl hh.naming hh.reserved,
    ⟨_, Function.update_self .., hchan⟩, ?_⟩
  exact find_update (fun _ => by rw [hv]; rfl) hf

/-- The mark is taken back: the device can be opened, and closed, again. -/
theorem step_endRemoval [Inhabited Chan] (h : Inv honest patient s) (hh : Holds i none none (some v) false s)
    (hv : s.heap v = .live d (.removing i)) :
    Inv honest patient (after i s (.endRemoval v) ()) ∧ Moves i s (after i s (.endRemoval v) ()) ∧
      Holds i none none none false (after i s (.endRemoval v) ()) := by
  have hactive := h.not_active hv rfl
  have hafter : after i s (.endRemoval v) () = s.revise i v s.keys s.mapped s.list s.count
      (.live { d with removing := false } .listed) s.reserved { s.held i with vdev := none } := by
    simp only [after_endRemoval]
    rw [onVdev_live hv]
    rfl
  rw [hafter]
  obtain ⟨hinv, hmoves⟩ := step_record h (i := i) (v := v) (c := .live { d with removing := false } .listed)
    (x := { s.held i with vdev := none }) ⟨rfl, by simp [hactive]⟩ (by simp [Cell.thread, Phase.thread])
    (fun w hw => by simp [hh.vdev, Ne.symm hw]) (by simp [hv, Cell.thread, Phase.thread])
    (by rw [hv]; rfl) (.inl rfl) (by simp [hv, Cell.isGone, Phase.isGone]) (by rw [hv]; rfl) (fun _ => by rw [hv]; rfl)
    (h.names_of_live hh.naming hv rfl rfl) (by simp [hh.naming]) ⟨rfl, by rw [hv]; rfl⟩ ⟨rfl, by rw [hv]; rfl⟩
  exact ⟨hinv, hmoves, .revise hh.channel hh.mapping rfl hh.naming hh.reserved⟩

/-- A verdict that the driver takes for a failure leaves everything as it is. -/
theorem after_hvcClose_failed [Inhabited Chan] {verdict : UInt64} (hfailed : hvcFailed verdict = true) :
    after i s (.hvcClose chan) verdict = s := by
  have hne : verdict ≠ 0 := by
    rintro rfl
    cases hfailed
  simp only [after_hvcClose, hfailed, if_neg hne]

/-- The channel is withdrawn from the hypervisor. -/
theorem step_hvcClose [Inhabited Chan] (h : Inv honest patient s) (hh : Holds i none none (some v) false s)
    (hv : s.heap v = .live d (.removing i)) (hchan : d.channel = chan) {verdict : UInt64}
    (hok : hvcFailed verdict = false) (hhonest : honest → verdict = 0) :
    Inv honest patient (after i s (.hvcClose chan) verdict) ∧ Moves i s (after i s (.hvcClose chan) verdict) ∧
      Holds i none none (some v) false (after i s (.hvcClose chan) verdict) ∧
      (after i s (.hvcClose chan) verdict).heap v = .live d (.withdrawn i) := by
  have hactive := h.not_active hv rfl
  have hflags := h.shape.ok v
  rw [hv] at hflags
  have hafter : after i s (.hvcClose chan) verdict =
      s.revise i v (if verdict = 0 then s.keys.erase chan else s.keys) s.mapped s.list s.count
        (.live d (.withdrawn i)) s.reserved (s.held i) := by
    simp only [after_hvcClose, hok, hh.vdev]
    rw [onVdev_live (by exact hv), State.revise, Function.update_eq_self]
    rfl
  rw [hafter]
  have hkeys (hon : honest) : Ledger (fun o => if o = .call i then (s.held i).channel else
      if o = .device v then (Cell.live d (.withdrawn i)).key else s.keyOwner o)
      (· ∈ if verdict = 0 then s.keys.erase chan else s.keys) := by
    refine (h.keys hon).release (o := .device v) (r := chan) ?_ ?_ (fun o ho => ?_) fun x => ?_
    · simp [State.keyOwner, hv, Cell.key, Phase.hasKey, hchan]
    · simp [Cell.key, Phase.hasKey]
    · rw [if_neg ho]
      exact keyOwner_same rfl o
    · rw [if_pos (hhonest hon), Finset.mem_erase]
  obtain ⟨hinv, hmoves⟩ := step_vdev h (i := i) (v := v) (c := .live d (.withdrawn i)) (M := s.mapped) (L := s.list)
    (C := s.count) (R := s.reserved) (x := s.held i) ⟨hflags.1, by simp [hactive]⟩
    (fun j hj => ⟨(Option.some.inj hj).symm, hh.vdev⟩) (fun w hw => by simp [hh.vdev, Ne.symm hw])
    (by simp [hv, Cell.thread, Phase.thread]) (by rw [hv]; rfl) (.inl rfl) (by simp [hv, Cell.isGone, Phase.isGone])
    h.shape.nodup (fun _ _ => Iff.rfl) (by rw [h.shape.listed, hv]; rfl)
    (fun w chan _ hf => find_update (fun _ => by rw [hv]; rfl) hf) ⟨h.counts.count, h.counts.bound⟩
    (fun _ _ => Iff.rfl) (h.names_of_live hh.naming hv rfl rfl) (by simp [hh.naming])
    (h.mappings_same rfl (by rw [hv]; rfl)) hkeys
  exact ⟨hinv, hmoves, .revise hh.channel hh.mapping hh.vdev hh.naming hh.reserved, Function.update_self ..⟩

/-- The device is deregistered, when no open callback runs on it. -/
theorem step_miscDeregister [Inhabited Chan] (h : Inv honest patient s) (hh : Holds i none none (some v) false s)
    (hv : s.heap v = .live d (.withdrawn i))
    (hquiet : ∀ f file, s.files f = some file → file.vdev = v → file.stage.isRunning = false) :
    Inv honest patient (after i s (.miscDeregister v) ()) ∧ Moves i s (after i s (.miscDeregister v) ()) ∧
      Holds i none none (some v) false (after i s (.miscDeregister v) ()) ∧
      (after i s (.miscDeregister v) ()).heap v = .live d (.deregistered i) := by
  have hactive := h.not_active hv rfl
  have hflags := h.shape.ok v
  rw [hv] at hflags
  have hafter : after i s (.miscDeregister v) () = s.revise i v s.keys s.mapped s.list s.count
      (.live d (.deregistered i)) s.reserved (s.held i) := by
    simp only [after_miscDeregister]
    rw [onVdev_live hv, State.revise, Function.update_eq_self]
    rfl
  rw [hafter]
  obtain ⟨hinv, hmoves⟩ := step_record h (i := i) (v := v) (c := .live d (.deregistered i)) (x := s.held i)
    ⟨hflags.1, by simp [hactive]⟩ (fun j hj => ⟨(Option.some.inj hj).symm, hh.vdev⟩)
    (fun w hw => by simp [hh.vdev, Ne.symm hw]) (by simp [hv, Cell.thread, Phase.thread]) (by rw [hv]; rfl)
    (.inr hquiet) (fun _ => rfl) (by rw [hv]; rfl) (fun _ => by rw [hv]; rfl)
    (h.names_of_live hh.naming hv rfl rfl) (by simp [hh.naming]) ⟨rfl, by rw [hv]; rfl⟩ ⟨rfl, by rw [hv]; rfl⟩
  exact ⟨hinv, hmoves, .revise hh.channel hh.mapping hh.vdev hh.naming hh.reserved, Function.update_self ..⟩

/-- The record is taken off the list. -/
theorem step_listDel [Inhabited Chan] (h : Inv honest patient s) (hh : Holds i none none (some v) false s)
    (hv : s.heap v = .live d (.deregistered i)) :
    Inv honest patient (after i s (.listDel v) ()) ∧ Moves i s (after i s (.listDel v) ()) ∧
      Holds i none none (some v) false (after i s (.listDel v) ()) ∧
      (after i s (.listDel v) ()).heap v = .live d (.unlisted i) := by
  have hactive := h.not_active hv rfl
  have hflags := h.shape.ok v
  rw [hv] at hflags
  have hmem : v ∈ s.list := by rw [h.shape.listed, hv]; rfl
  have hlength : (s.list.erase v).length + 1 = s.list.length := by
    have hpos := List.length_pos_of_mem hmem
    rw [List.length_erase_of_mem hmem]
    omega
  have hcount := h.counts.count
  have hbound := h.counts.bound
  have hafter : after i s (.listDel v) () = s.revise i v s.keys s.mapped (s.list.erase v) (s.count - 1)
      (.live d (.unlisted i)) s.reserved (s.held i) := by
    simp only [after_listDel]
    rw [onVdev_live (by exact hv), State.revise, Function.update_eq_self]
    rfl
  rw [hafter]
  obtain ⟨hinv, hmoves⟩ := step_vdev h (i := i) (v := v) (c := .live d (.unlisted i)) (K := s.keys) (M := s.mapped)
    (L := s.list.erase v) (C := s.count - 1) (R := s.reserved) (x := s.held i) ⟨hflags.1, by simp [hactive]⟩
    (fun j hj => ⟨(Option.some.inj hj).symm, hh.vdev⟩) (fun w hw => by simp [hh.vdev, Ne.symm hw])
    (by simp [hv, Cell.thread, Phase.thread]) (by rw [hv]; rfl) (.inr (h.not_running (by rw [hv]; rfl)))
    (fun _ => rfl) (h.shape.nodup.erase v) (fun w hw => List.mem_erase_of_ne hw)
    (by simp [h.shape.nodup.mem_erase_iff, Cell.onList, Phase.onList])
    (fun w chan hw hf => find_update (fun _ => by rw [hv]; rfl) (find_erase hf hw)) ⟨by omega, by omega⟩
    (fun _ _ => Iff.rfl) (h.names_of_live hh.naming hv rfl rfl) (by simp [hh.naming])
    (h.mappings_same rfl (by rw [hv]; rfl)) (fun hon => h.keys_same hon rfl (by rw [hv]; rfl))
  exact ⟨hinv, hmoves, .revise hh.channel hh.mapping hh.vdev hh.naming hh.reserved, Function.update_self ..⟩

/-- The mapping of the record is dropped. -/
theorem step_memunmap_vdev [Inhabited Chan] (h : Inv honest patient s) (hh : Holds i none none (some v) false s)
    (hv : s.heap v = .live d (.unlisted i)) :
    Inv honest patient (after i s (.memunmap d.mappedShmBase) ()) ∧
      Moves i s (after i s (.memunmap d.mappedShmBase) ()) ∧
      Holds i none none (some v) false (after i s (.memunmap d.mappedShmBase) ()) ∧
      (after i s (.memunmap d.mappedShmBase) ()).heap v = .live d (.unmapped i) := by
  have hactive := h.not_active hv rfl
  have hflags := h.shape.ok v
  rw [hv] at hflags
  have hafter : after i s (.memunmap d.mappedShmBase) () =
      s.revise i v s.keys (s.mapped.filter fun n => d.mappedShmBase ≠ some n) s.list s.count
        (.live d (.unmapped i)) s.reserved (s.held i) := by
    simp only [after_memunmap]
    rw [hh.vdev]
    simp only
    rw [onVdev_live (by exact hv), State.revise, Function.update_eq_self]
    rfl
  rw [hafter]
  have hmappings : Ledger (fun o => if o = .call i then (s.held i).mapping else
      if o = .device v then (Cell.live d (.unmapped i)).mapping else s.mapOwner o)
      (· ∈ s.mapped.filter fun n => d.mappedShmBase ≠ some n) := by
    have hrest (o : Owner) (ho : o ≠ .device v) : (if o = .call i then (s.held i).mapping else
        if o = .device v then (Cell.live d (.unmapped i)).mapping else s.mapOwner o) = s.mapOwner o := by
      rw [if_neg ho]
      exact mapOwner_same rfl o
    cases hm : d.mappedShmBase with
    | none =>
        refine h.mappings.congr (fun o => ?_) fun x => by simp
        by_cases ho : o = .device v
        · rw [ho]
          simp [State.mapOwner, hv, Cell.mapping, Phase.hasMapping, hm]
        · exact hrest o ho
    | some m =>
        refine h.mappings.release (o := .device v) (r := m) ?_ ?_ hrest fun x => ?_
        · simp [State.mapOwner, hv, Cell.mapping, Phase.hasMapping, hm]
        · simp [Cell.mapping, Phase.hasMapping]
        · rw [Finset.mem_filter, and_comm, ne_eq, Option.some.injEq, eq_comm]
  obtain ⟨hinv, hmoves⟩ := step_vdev h (i := i) (v := v) (c := .live d (.unmapped i)) (K := s.keys)
    (L := s.list) (C := s.count) (R := s.reserved) (x := s.held i) ⟨hflags.1, by simp [hactive]⟩
    (fun j hj => ⟨(Option.some.inj hj).symm, hh.vdev⟩) (fun w hw => by simp [hh.vdev, Ne.symm hw])
    (by simp [hv, Cell.thread, Phase.thread]) (by rw [hv]; rfl) (.inr (h.not_running (by rw [hv]; rfl)))
    (fun _ => rfl) h.shape.nodup (fun _ _ => Iff.rfl) (by rw [h.shape.listed, hv]; rfl)
    (fun w chan _ hf => find_update (fun _ => by rw [hv]; rfl) hf) ⟨h.counts.count, h.counts.bound⟩
    (fun _ _ => Iff.rfl) (h.names_of_live hh.naming hv rfl rfl) (by simp [hh.naming]) hmappings
    (fun hon => h.keys_same hon rfl (by rw [hv]; rfl))
  exact ⟨hinv, hmoves, .revise hh.channel hh.mapping hh.vdev hh.naming hh.reserved, Function.update_self ..⟩

/-- The record is freed. -/
theorem step_kfree [Inhabited Chan] (h : Inv honest patient s) (hh : Holds i none none (some v) false s)
    (hv : s.heap v = .live d (.unmapped i)) (hpatient : patient → ∀ j, (s.held j).naming ≠ some v) :
    Inv honest patient (after i s (.kfree v) ()) ∧ Moves i s (after i s (.kfree v) ()) ∧
      Holds i none none none false (after i s (.kfree v) ()) := by
  have hactive := h.not_active hv rfl
  rw [after_kfree]
  have hnames (hp : patient) : NamesIn s i v { s.held i with vdev := none } .freed := by
    intro j hj
    by_cases hji : j = i
    · rw [if_pos hji] at hj
      exact absurd hj (hpatient hp i)
    · rw [if_neg hji] at hj
      exact absurd hj (hpatient hp j)
  obtain ⟨hinv, hmoves⟩ := step_record h (i := i) (v := v) (c := .freed) (x := { s.held i with vdev := none })
    trivial (by simp [Cell.thread]) (fun w hw => by simp [hh.vdev, Ne.symm hw])
    (by simp [hv, Cell.thread, Phase.thread]) (by simp [hv, Cell.isActive, hactive])
    (.inr (h.not_running (by rw [hv]; rfl))) (fun _ => rfl) (by rw [hv]; rfl)
    (by simp [hv, Cell.onList, Phase.onList]) hnames
    (by simp [hh.naming]) ⟨rfl, by rw [hv]; rfl⟩ ⟨rfl, by rw [hv]; rfl⟩
  exact ⟨hinv, hmoves, .revise hh.channel hh.mapping rfl hh.naming hh.reserved⟩

/-! ## files -/

/-- The mark of an open device in record `v`, and file `f`, are set. -/
def State.withFile (s : State Chan) (v : Nat) (c : Cell Chan) (f : Nat) (x : Option File) : State Chan :=
  { s with
    heap := Function.update s.heap v c
    files := Function.update s.files f x }

section WithFile

variable {c : Cell Chan} {f : Nat} {x : Option File} {a : Bool}

section Frame

omit [DecidableEq Chan]

theorem withFile_heap_self : (s.withFile v c f x).heap v = c := Function.update_self ..

theorem withFile_heap_of_ne {w : Nat} (hw : w ≠ v) : (s.withFile v c f x).heap w = s.heap w :=
  Function.update_of_ne hw ..

theorem withFile_files (g : Nat) : (s.withFile v c f x).files g = if g = f then x else s.files g := by
  by_cases hg : g = f
  · rw [if_pos hg, hg]
    exact Function.update_self ..
  · rw [if_neg hg]
    exact Function.update_of_ne hg ..

/-- What does not depend on the mark of an open device is as it was. -/
theorem withFile_cell {α : Type} (F : Cell Chan → α) (hF : F c = F (s.heap v)) (w : Nat) :
    F ((s.withFile v c f x).heap w) = F (s.heap w) := by
  by_cases hw : w = v
  · rw [hw, withFile_heap_self, hF]
  · rw [withFile_heap_of_ne hw]

theorem Inv.withFile (h : Inv honest patient s) (hv : s.heap v = .live d p) (ha : a = true → p.mayOpen = true)
    (hopened : Ledger (fun g => openDevice (if g = f then x else s.files g))
      (fun w => if w = v then a = true else (s.heap w).isActive = true))
    (hopening : ∀ file, x = some file → file.stage.isRunning = true → file.vdev = v ∧ p.isRegistered = true) :
    Inv honest patient (s.withFile v (.live { d with active := a } p) f x) := by
  have hflags := h.shape.ok v
  rw [hv] at hflags
  refine ⟨⟨h.shape.nodup, fun w => ?_, fun w => ?_, fun w j hw => ?_⟩, ?_, fun hon => ?_, ⟨?_, ?_⟩,
    ⟨h.counts.count, h.counts.bound⟩, fun hp j w hj => ?_⟩
  · rw [withFile_cell Cell.onList (by rw [hv]; rfl)]
    exact h.shape.listed w
  · by_cases hw : w = v
    · rw [hw, withFile_heap_self]
      exact ⟨hflags.1, ha⟩
    · rw [withFile_heap_of_ne hw]
      exact h.shape.ok w
  · rw [withFile_cell Cell.thread (by rw [hv]; rfl)] at hw
    exact h.shape.owner w j hw
  · refine h.mappings.congr (fun o => ?_) fun _ => Iff.rfl
    cases o with
    | call j => rfl
    | device w => exact withFile_cell Cell.mapping (by rw [hv]; rfl) w
  · refine (h.keys hon).congr (fun o => ?_) fun _ => Iff.rfl
    cases o with
    | call j => rfl
    | device w => exact withFile_cell Cell.key (by rw [hv]; rfl) w
  · refine hopened.congr (fun g => by rw [withFile_files]) fun w => ?_
    by_cases hw : w = v
    · rw [if_pos hw, hw, withFile_heap_self]
      rfl
    · rw [if_neg hw, withFile_heap_of_ne hw]
  · intro g file hg hrun
    rw [withFile_cell Cell.isRegistered (by rw [hv]; rfl)]
    rw [withFile_files] at hg
    by_cases hgf : g = f
    · rw [if_pos hgf] at hg
      obtain ⟨hvdev, hreg⟩ := hopening file hg hrun
      rw [hvdev, hv]
      exact hreg
    · rw [if_neg hgf] at hg
      exact h.files.opening g file hg hrun
  · obtain ⟨d₀, p₀, hc, hnew, hname⟩ := h.names hp j w hj
    by_cases hw : w = v
    · rw [hw, hv] at hc
      cases hc
      exact ⟨{ d with active := a }, p, by rw [hw, withFile_heap_self], hnew, hname⟩
    · exact ⟨d₀, p₀, by rw [withFile_heap_of_ne hw, hc], hnew, hname⟩

end Frame

theorem Moves.withFile (hv : s.heap v = .live d p)
    (hrunning : ∀ j w, j ≠ i → s.files f ≠ some ⟨w, .opening j⟩ ∧ s.files f ≠ some ⟨w, .acquired j⟩ ∧
      s.files f ≠ some ⟨w, .releasing j⟩)
    (hio : ∀ j w ios, j ≠ i → s.files f = some ⟨w, .usable ios⟩ → j ∈ ios →
      ∃ ios', x = some ⟨w, .usable ios'⟩ ∧ j ∈ ios') :
    Moves i s (s.withFile v (.live { d with active := a } p) f x) := by
  refine ⟨fun j hj => ⟨rfl, Iff.rfl, ?_, ?_, ?_, ?_⟩, fun w hw => ?_⟩
  · intro w d₀ p₀ hc hp
    by_cases hw : w = v
    · rw [hw, hv] at hc
      cases hc
      exact ⟨a, by rw [hw, withFile_heap_self]⟩
    · exact ⟨d₀.active, by rw [withFile_heap_of_ne hw, hc]⟩
  · intro w chan _ hf
    exact find_update (fun _ => by rw [hv]; rfl) hf
  · intro g w
    rw [withFile_files]
    by_cases hg : g = f
    · obtain ⟨ho, hac, hre⟩ := hrunning j w hj
      rw [hg]
      exact ⟨fun heq => absurd heq ho, fun heq => absurd heq hac, fun heq => absurd heq hre⟩
    · rw [if_neg hg]
      exact ⟨id, id, id⟩
  · intro g w ios hg hmem
    rw [withFile_files]
    by_cases hgf : g = f
    · rw [if_pos hgf]
      exact hio j w ios hj (hgf ▸ hg) hmem
    · rw [if_neg hgf]
      exact ⟨ios, hg, hmem⟩
  · rw [withFile_cell Cell.isGone (by rw [hv]; rfl)]
    exact hw

/-- A step of a file, and of the mark in the record of its device. -/
theorem step_file (h : Inv honest patient s) (hv : s.heap v = .live d p) (ha : a = true → p.mayOpen = true)
    (hopened : Ledger (fun g => openDevice (if g = f then x else s.files g))
      (fun w => if w = v then a = true else (s.heap w).isActive = true))
    (hopening : ∀ file, x = some file → file.stage.isRunning = true → file.vdev = v ∧ p.isRegistered = true)
    (hrunning : ∀ j w, j ≠ i → s.files f ≠ some ⟨w, .opening j⟩ ∧ s.files f ≠ some ⟨w, .acquired j⟩ ∧
      s.files f ≠ some ⟨w, .releasing j⟩)
    (hio : ∀ j w ios, j ≠ i → s.files f = some ⟨w, .usable ios⟩ → j ∈ ios →
      ∃ ios', x = some ⟨w, .usable ios'⟩ ∧ j ∈ ios') :
    Inv honest patient (s.withFile v (.live { d with active := a } p) f x) ∧
      Moves i s (s.withFile v (.live { d with active := a } p) f x) :=
  ⟨h.withFile hv ha hopened hopening, .withFile hv hrunning hio⟩

end WithFile

/-- A step of a file that opens and closes nothing. -/
theorem step_stage (h : Inv honest patient s) (hv : s.heap v = .live d p) {f : Nat} {x : Option File}
    (hopen : openDevice x = openDevice (s.files f))
    (hopening : ∀ file, x = some file → file.stage.isRunning = true → file.vdev = v ∧ p.isRegistered = true)
    (hrunning : ∀ j w, j ≠ i → s.files f ≠ some ⟨w, .opening j⟩ ∧ s.files f ≠ some ⟨w, .acquired j⟩ ∧
      s.files f ≠ some ⟨w, .releasing j⟩)
    (hio : ∀ j w ios, j ≠ i → s.files f = some ⟨w, .usable ios⟩ → j ∈ ios →
      ∃ ios', x = some ⟨w, .usable ios'⟩ ∧ j ∈ ios') :
    Inv honest patient (s.setFile f x) ∧ Moves i s (s.setFile f x) := by
  have hflags := h.shape.ok v
  rw [hv] at hflags
  have hset : s.setFile f x = s.withFile v (.live { d with active := d.active } p) f x := by
    rw [State.withFile, ← hv, Function.update_eq_self]
    rfl
  rw [hset]
  refine step_file h hv hflags.2 ?_ hopening hrunning hio
  refine h.files.opened.congr (fun g => ?_) fun w => ?_
  · by_cases hg : g = f
    · rw [if_pos hg, hg, hopen]
    · rw [if_neg hg]
  · by_cases hw : w = v
    · rw [if_pos hw, hw, hv]
      rfl
    · rw [if_neg hw]

variable [Inhabited Chan]

/-- The device is marked as open. -/
theorem step_activate (h : Inv honest patient s) {f : Nat} (hf : s.files f = some ⟨v, .opening i⟩)
    (hopen : s.tryOpen v = .ok ()) :
    Inv honest patient (after i s (.activate f v) (.ok ())) ∧ Moves i s (after i s (.activate f v) (.ok ())) ∧
      (after i s (.activate f v) (.ok ())).files f = some ⟨v, .acquired i⟩ := by
  obtain ⟨d, p, hv, hreg⟩ := h.live_of_running hf rfl
  have hflags := h.shape.ok v
  rw [hv] at hflags
  obtain ⟨hinactive, hnot⟩ : d.active = false ∧ d.removing = false := by
    rw [State.tryOpen, hv] at hopen
    by_contra hflag
    simp only [← Bool.or_eq_false_iff, Bool.not_eq_false] at hflag
    simp [hflag] at hopen
  have hmay : p.mayOpen = true := by
    have hremoving := hflags.1
    rw [hnot] at hremoving
    cases p <;> simp [Phase.isRegistered, Phase.isRemoving, Phase.mayOpen] at hreg hremoving ⊢
  have hafter : after i s (.activate f v) (.ok ()) =
      s.withFile v (.live { d with active := true } p) f (some ⟨v, .acquired i⟩) := by
    simp only [after_activate]
    rw [onVdev_live hv]
    rfl
  rw [hafter]
  obtain ⟨hinv, hmoves⟩ := step_file h hv (i := i) (f := f) (x := some ⟨v, .acquired i⟩) (a := true) (fun _ => hmay)
    (h.files.opened.acquire (o := f) (r := v) (by simp [hv, Cell.isActive, hinactive]) (by rw [hf]; rfl)
      (by rw [if_pos rfl]; rfl) (fun g hg => by rw [if_neg hg]) (fun w => by by_cases hw : w = v <;> simp [hw]))
    (by rintro file ⟨⟩ _; exact ⟨rfl, hreg⟩) (fun j w hj => by simp [hf, Ne.symm hj]) (by simp [hf])
  exact ⟨hinv, hmoves, Function.update_self ..⟩

/-- The mark is taken back when the file is closed. -/
theorem step_deactivate (h : Inv honest patient s) {f : Nat} (hf : s.files f = some ⟨v, .releasing i⟩) :
    Inv honest patient (after i s (.deactivate f v) ()) ∧ Moves i s (after i s (.deactivate f v) ()) := by
  obtain ⟨d, p, hv, hactive⟩ := h.live_of_open (f := f) (v := v) (by rw [hf]; rfl)
  have hafter : after i s (.deactivate f v) () = s.withFile v (.live { d with active := false } p) f none := by
    simp only [after_deactivate]
    rw [onVdev_live hv]
    rfl
  rw [hafter]
  exact step_file h hv (by simp)
    (h.files.opened.release (o := f) (r := v) (by rw [hf]; rfl) (by rw [if_pos rfl]; rfl)
      (fun g hg => by rw [if_neg hg]) (fun w => by by_cases hw : w = v <;> simp [hw]))
    (by simp) (fun j w hj => by simp [hf, Ne.symm hj]) (by simp [hf])

end Registry

end Axivc

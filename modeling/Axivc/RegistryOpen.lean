import Axivc.RegistrySteps

/-!
# Axivc.RegistryOpen

The steps that open a channel, and the call that takes them.

There is one lemma for each step.  It says what the call knows before and
after: what it holds (`Holds`), and the record it controls.
-/

namespace Axivc

namespace Registry

open Prog Rely

variable {Chan : Type} [DecidableEq Chan] [Inhabited Chan] {honest patient : Prop} {i v : Nat} {s t : State Chan}
  {channel : Option Chan} {mapping vdev : Option Nat} {reserved : Bool} {chan : Chan} {d : Vdev Chan} {p : Phase}

/-! ## the hypervisor and the mappings -/

/-- A hypercall that opens a channel.  A verdict that the driver reads as it is
meant makes the call the owner of a channel that had none. -/
theorem step_hvcOpen (size : UInt64) (h : Inv honest patient s) (hh : Holds i none none none false s) {verdict : UInt64}
    (hhonest : honest → (hvcFailed verdict = true ↔ verdict ≠ 0) ∧ (verdict = 0 → chan ∉ s.keys)) :
    Inv honest patient (after i s (.hvcOpen chan size) verdict) ∧ Moves i s (after i s (.hvcOpen chan size) verdict) ∧
      Holds i (if hvcFailed verdict then none else some chan) none none false
        (after i s (.hvcOpen chan size) verdict) := by
  have hnothing : s.keyOwner (.call i) = none := hh.channel
  have hkeys (hon : honest) : Ledger (fun o => if o = .call i then
      (if hvcFailed verdict then (s.held i).channel else some chan) else s.keyOwner o)
      (· ∈ if verdict = 0 then insert chan s.keys else s.keys) := by
    obtain ⟨hfailed, hfresh⟩ := hhonest hon
    by_cases hzero : verdict = 0
    · have hok : hvcFailed verdict = false := by simpa [hzero] using hfailed
      refine (h.keys hon).acquire (hfresh hzero) hnothing ?_ (fun o ho => if_neg ho) fun x => ?_
      · simp [hok]
      · simp [hzero]
    · refine (h.keys hon).congr (keyOwner_same ?_) fun x => ?_
      · simp [hfailed.mpr hzero]
      · simp [hzero]
  obtain ⟨hinv, hmoves⟩ := step_pools h (i := i)
    (f := fun h => { h with channel := if hvcFailed verdict then h.channel else some chan }) rfl hh.naming
    (h.mappings.congr (mapOwner_same rfl) fun _ => Iff.rfl) hkeys
  refine ⟨hinv, hmoves, ?_, ?_, ?_, ?_, hh.reserved⟩
  · simp [after_hvcOpen, hh.channel]
  · simpa [after_hvcOpen] using hh.mapping
  · simpa [after_hvcOpen] using hh.vdev
  · simpa [after_hvcOpen] using hh.naming

/-- A hypercall that takes the channel of a failed call back. -/
theorem step_hvcRollback (h : Inv honest patient s) (hh : Holds i (some chan) none none false s) {verdict : UInt64}
    (hhonest : honest → verdict = 0) :
    Inv honest patient (after i s (.hvcRollback chan) verdict) ∧ Moves i s (after i s (.hvcRollback chan) verdict) ∧
      Holds i none none none false (after i s (.hvcRollback chan) verdict) := by
  have hkeys (hon : honest) : Ledger (fun o => if o = .call i then none else s.keyOwner o)
      (· ∈ if verdict = 0 then s.keys.erase chan else s.keys) := by
    refine (h.keys hon).release (o := .call i) hh.channel (if_pos rfl) (fun o ho => if_neg ho) fun x => ?_
    rw [if_pos (hhonest hon), Finset.mem_erase]
  obtain ⟨hinv, hmoves⟩ := step_pools h (i := i) (f := fun h => { h with channel := none }) rfl hh.naming
    (h.mappings.congr (mapOwner_same rfl) fun _ => Iff.rfl) hkeys
  refine ⟨hinv, hmoves, ?_, ?_, ?_, ?_, hh.reserved⟩
  · simp [after_hvcRollback]
  · simpa [after_hvcRollback] using hh.mapping
  · simpa [after_hvcRollback] using hh.vdev
  · simpa [after_hvcRollback] using hh.naming

/-- A region is mapped. -/
theorem step_memremap (base size : UInt64) (h : Inv honest patient s) (hh : Holds i (some chan) none none false s)
    {m : Nat} (hnew : m ∉ s.mapped) :
    Inv honest patient (after i s (.memremap base size) (some m)) ∧ Moves i s (after i s (.memremap base size) (some m)) ∧
      Holds i (some chan) (some m) none false (after i s (.memremap base size) (some m)) := by
  have hmappings : Ledger (fun o => if o = .call i then some m else s.mapOwner o) (· ∈ insert m s.mapped) :=
    h.mappings.acquire (o := .call i) hnew hh.mapping (if_pos rfl) (fun o ho => if_neg ho) fun x => Finset.mem_insert
  obtain ⟨hinv, hmoves⟩ := step_pools h (i := i) (f := fun h => { h with mapping := some m }) rfl hh.naming hmappings
    (fun hon => (h.keys hon).congr (keyOwner_same rfl) fun _ => Iff.rfl)
  refine ⟨hinv, hmoves, ?_, ?_, ?_, ?_, hh.reserved⟩
  · simpa [after_memremap] using hh.channel
  · simp [after_memremap]
  · simpa [after_memremap] using hh.vdev
  · simpa [after_memremap] using hh.naming

/-- The mapping of a failed call is dropped. -/
theorem step_memunmap (h : Inv honest patient s) {m : Nat} (hh : Holds i (some chan) (some m) none false s) :
    Inv honest patient (after i s (.memunmap (some m)) ()) ∧ Moves i s (after i s (.memunmap (some m)) ()) ∧
      Holds i (some chan) none none false (after i s (.memunmap (some m)) ()) := by
  have hafter : after i s (.memunmap (some m)) () =
      { s with mapped := s.mapped.filter fun n => some m ≠ some n }.onHeld i fun h => { h with mapping := none } := by
    simp only [after_memunmap]
    rw [hh.vdev]
  rw [hafter]
  have hmappings : Ledger (fun o => if o = .call i then none else s.mapOwner o)
      (· ∈ s.mapped.filter fun n => some m ≠ some n) := by
    refine h.mappings.release (o := .call i) hh.mapping (if_pos rfl) (fun o ho => if_neg ho) fun x => ?_
    rw [Finset.mem_filter, and_comm, ne_eq, Option.some.injEq, eq_comm]
  obtain ⟨hinv, hmoves⟩ := step_pools h (i := i) (f := fun h => { h with mapping := none }) rfl hh.naming hmappings
    (fun hon => (h.keys hon).congr (keyOwner_same rfl) fun _ => Iff.rfl)
  refine ⟨hinv, hmoves, ?_, ?_, ?_, ?_, hh.reserved⟩
  · simpa using hh.channel
  · simp
  · simpa using hh.vdev
  · simpa using hh.naming

/-! ## a new record -/

/-- `kzalloc` of a record. -/
theorem step_kzallocVdev (h : Inv honest patient s) (hh : Holds i (some chan) mapping none false s)
    (hunused : s.heap v = .unused) :
    Inv honest patient (after i s .kzallocVdev (some v)) ∧ Moves i s (after i s .kzallocVdev (some v)) ∧
      Holds i (some chan) mapping (some v) false (after i s .kzallocVdev (some v)) ∧
      (after i s .kzallocVdev (some v)).heap v = .live .zeroed (.building i) := by
  obtain ⟨hinv, hmoves⟩ := step_record h (i := i) (v := v) (c := .live .zeroed (.building i))
    (x := { s.held i with vdev := some v }) ⟨rfl, by simp [Vdev.zeroed]⟩
    (fun j hj => ⟨(Option.some.inj hj).symm, rfl⟩) (by simp [hh.vdev]) (by simp [hunused, Cell.thread])
    (by rw [hunused]; rfl) (.inr (h.not_running (by rw [hunused]; rfl))) (by simp [hunused, Cell.isGone])
    (by rw [hunused]; rfl) (by simp [hunused, Cell.onList])
    (h.names_of_new hh.naming (by simp [hunused])) (by simp [hh.naming])
    ⟨rfl, by rw [hunused]; rfl⟩ ⟨rfl, by rw [hunused]; rfl⟩
  refine ⟨hinv, hmoves, ⟨?_, ?_, ?_, ?_, hh.reserved⟩, Function.update_self ..⟩
  · simpa [after_kzallocVdev] using hh.channel
  · simpa [after_kzallocVdev] using hh.mapping
  · simp [after_kzallocVdev]
  · simpa [after_kzallocVdev] using hh.naming

/-- There is a free place. -/
theorem step_reserve (h : Inv honest patient s) (hh : Holds i channel mapping vdev false s) {id : Nat}
    (hfree : some id = if s.count ≥ maxVdevs then none else some s.nextId) :
    Inv honest patient (after i s .reserve (some id)) ∧ Moves i s (after i s .reserve (some id)) ∧
      Holds i channel mapping vdev true (after i s .reserve (some id)) := by
  have hnot : i ∉ s.reserved := by simpa using hh.reserved
  have hlt : s.count < maxVdevs := by
    by_contra hge
    rw [if_pos (not_lt.mp hge)] at hfree
    cases hfree
  have hcard : (insert i s.reserved).card = s.reserved.card + 1 := Finset.card_insert_of_notMem hnot
  have hcount := h.counts.count
  obtain ⟨hinv, hmoves⟩ := step_places h (i := i) (n := s.nextId + 1) (C := s.count + 1) (R := insert i s.reserved)
    (by rw [hcard]; push_cast; omega) (by omega) (fun j hj => by simp [hj])
  exact ⟨hinv, hmoves, hh.channel, hh.mapping, hh.vdev, hh.naming, by simp [after_reserve]⟩

/-- A place is given back. -/
theorem step_unreserve (h : Inv honest patient s) (hh : Holds i channel mapping vdev true s) :
    Inv honest patient (after i s .unreserve ()) ∧ Moves i s (after i s .unreserve ()) ∧
      Holds i channel mapping vdev false (after i s .unreserve ()) := by
  have hmem : i ∈ s.reserved := by simpa using hh.reserved
  have hcard : (s.reserved.erase i).card + 1 = s.reserved.card := Finset.card_erase_add_one hmem
  have hcount := h.counts.count
  have hbound := h.counts.bound
  obtain ⟨hinv, hmoves⟩ := step_places h (i := i) (n := s.nextId) (C := s.count - 1) (R := s.reserved.erase i)
    (by omega) (by omega) (fun j hj => by simp [hj])
  exact ⟨hinv, hmoves, hh.channel, hh.mapping, hh.vdev, hh.naming, by simp [after_unreserve]⟩

/-- A store into a record that is being built. -/
theorem step_store (h : Inv honest patient s) (hh : Holds i channel mapping (some v) reserved s)
    (hv : s.heap v = .live d (.building i)) (field : VdevStore Chan) :
    Inv honest patient (after i s (.store v field) ()) ∧ Moves i s (after i s (.store v field) ()) ∧
      Holds i channel mapping (some v) reserved (after i s (.store v field) ()) ∧
      (after i s (.store v field) ()).heap v = .live (d.store field) (.building i) := by
  have hok := h.shape.ok v
  rw [hv] at hok
  have hafter : after i s (.store v field) () = s.revise i v s.keys s.mapped s.list s.count
      (.live (d.store field) (.building i)) s.reserved (s.held i) := by
    simp only [after_store]
    rw [onVdev_live hv, State.revise, Function.update_eq_self]
    rfl
  rw [hafter]
  obtain ⟨hinv, hmoves⟩ := step_record h (i := i) (v := v) (c := .live (d.store field) (.building i)) (x := s.held i)
    (by cases field <;> exact hok) (fun j hj => ⟨(Option.some.inj hj).symm, hh.vdev⟩)
    (fun w hw => by simp [hh.vdev, Ne.symm hw]) (by simp [hv, Cell.thread, Phase.thread])
    (by rw [hv]; cases field <;> rfl) (.inr (h.not_running (by rw [hv]; rfl))) (by simp [hv, Cell.isGone, Phase.isGone])
    (by rw [hv]; rfl) (by simp [hv, Cell.onList, Phase.onList])
    (h.names_of_new hh.naming (by simp [hv, Phase.isNew])) (by simp [hh.naming])
    ⟨rfl, by rw [hv]; rfl⟩ ⟨rfl, by rw [hv]; rfl⟩
  exact ⟨hinv, hmoves, .revise hh.channel hh.mapping hh.vdev hh.naming hh.reserved, Function.update_self ..⟩

/-- The device is registered; from now on it can be opened. -/
theorem step_miscRegister (h : Inv honest patient s) (hh : Holds i channel mapping (some v) reserved s)
    (hv : s.heap v = .live d (.building i)) :
    Inv honest patient (after i s (.miscRegister v) (.ok ())) ∧ Moves i s (after i s (.miscRegister v) (.ok ())) ∧
      Holds i channel mapping (some v) reserved (after i s (.miscRegister v) (.ok ())) ∧
      (after i s (.miscRegister v) (.ok ())).heap v = .live d (.registered i) ∧
      ((after i s (.miscRegister v) (.ok ())).held i).registered = d.name := by
  have hok := h.shape.ok v
  rw [hv] at hok
  have hafter : after i s (.miscRegister v) (.ok ()) = s.revise i v s.keys s.mapped s.list s.count
      (.live d (.registered i)) s.reserved { s.held i with registered := d.name } := by
    simp only [after_miscRegister]
    rw [onVdev_live hv, State.nameOf, hv]
    rfl
  rw [hafter]
  obtain ⟨hinv, hmoves⟩ := step_record h (i := i) (v := v) (c := .live d (.registered i))
    (x := { s.held i with registered := d.name }) ⟨hok.1, fun _ => rfl⟩
    (fun j hj => ⟨(Option.some.inj hj).symm, hh.vdev⟩) (fun w hw => by simp [hh.vdev, Ne.symm hw])
    (by simp [hv, Cell.thread, Phase.thread]) (by rw [hv]; rfl) (.inl rfl)
    (by simp [hv, Cell.isGone, Phase.isGone]) (by rw [hv]; rfl) (by simp [hv, Cell.onList, Phase.onList])
    (h.names_of_new hh.naming (by simp [hv, Phase.isNew])) (by simp [hh.naming])
    ⟨rfl, by rw [hv]; rfl⟩ ⟨rfl, by rw [hv]; rfl⟩
  refine ⟨hinv, hmoves, .revise hh.channel hh.mapping hh.vdev hh.naming hh.reserved, Function.update_self .., ?_⟩
  simp [State.revise]

/-- A record that has not been listed is freed. -/
theorem step_kfree_new (h : Inv honest patient s) (hh : Holds i channel mapping (some v) reserved s)
    (hv : s.heap v = .live d (.building i)) :
    Inv honest patient (after i s (.kfree v) ()) ∧ Moves i s (after i s (.kfree v) ()) ∧
      Holds i channel mapping none reserved (after i s (.kfree v) ()) := by
  have hok := h.shape.ok v
  rw [hv] at hok
  have hinactive : d.active = false := by simpa [Phase.mayOpen] using hok.2
  rw [after_kfree]
  obtain ⟨hinv, hmoves⟩ := step_record h (i := i) (v := v) (c := .freed) (x := { s.held i with vdev := none })
    trivial (by simp [Cell.thread]) (fun w hw => by simp [hh.vdev, Ne.symm hw])
    (by simp [hv, Cell.thread, Phase.thread]) (by simp [hv, Cell.isActive, hinactive])
    (.inr (h.not_running (by rw [hv]; rfl))) (fun _ => rfl) (by rw [hv]; rfl)
    (by simp [hv, Cell.onList, Phase.onList]) (h.names_of_new hh.naming (by simp [hv, Phase.isNew]))
    (by simp [hh.naming]) ⟨rfl, by rw [hv]; rfl⟩ ⟨rfl, by rw [hv]; rfl⟩
  exact ⟨hinv, hmoves, .revise hh.channel hh.mapping rfl hh.naming hh.reserved⟩

/-- The record is put on the list, and takes over the channel and the mapping
of the call. -/
theorem step_listAddTail (h : Inv honest patient s) {m : Nat} (hh : Holds i (some chan) (some m) (some v) true s)
    (hv : s.heap v = .live d (.registered i)) (hchan : d.channel = chan) (hm : d.mappedShmBase = some m)
    (hname : (s.held i).registered = d.name) :
    Inv honest patient (after i s (.listAddTail v) ()) ∧ Moves i s (after i s (.listAddTail v) ()) ∧
      Copies i v (after i s (.listAddTail v) ()) := by
  have hok := h.shape.ok v
  rw [hv] at hok
  have hoff : (s.heap v).onList = false := by rw [hv]; rfl
  have hmem : i ∈ s.reserved := by simpa using hh.reserved
  have hcard : (s.reserved.erase i).card + 1 = s.reserved.card := Finset.card_erase_add_one hmem
  have hafter : after i s (.listAddTail v) () = s.revise i v s.keys s.mapped (s.list ++ [v]) s.count
      (.live d .listed) (s.reserved.erase i)
      { s.held i with channel := none, mapping := none, vdev := none, naming := some v } := by
    simp only [after_listAddTail]
    rw [onVdev_live (by exact hv)]
    rfl
  rw [hafter]
  have hnames (hp : patient) : NamesIn s i v
      { s.held i with channel := none, mapping := none, vdev := none, naming := some v } (.live d .listed) := by
    intro j hj
    by_cases hji : j = i
    · rw [if_pos hji]
      exact ⟨d, .listed, rfl, rfl, hname.symm⟩
    · have hnew := h.names_of_new (i := i) (v := v) (x := Held.nothing) (c := .live d .listed) rfl (by simp [hv, Phase.isNew]) hp j
      rw [if_neg hji] at hj hnew ⊢
      exact hnew hj
  have hmappings : Ledger (fun o => if o = .call i then none else
      if o = .device v then (Cell.live d .listed).mapping else s.mapOwner o) (· ∈ s.mapped) := by
    refine h.mappings.transfer (o := .call i) (q := .device v) hh.mapping (by simp [State.mapOwner, hv, Cell.mapping, Phase.hasMapping])
      (if_pos rfl) ?_ (fun o hi hv => by rw [if_neg hi, if_neg hv]) fun _ => Iff.rfl
    simpa [Cell.mapping, Phase.hasMapping] using hm
  have hkeys (hon : honest) : Ledger (fun o => if o = .call i then none else
      if o = .device v then (Cell.live d .listed).key else s.keyOwner o) (· ∈ s.keys) := by
    refine (h.keys hon).transfer (o := .call i) (q := .device v) hh.channel (by simp [State.keyOwner, hv, Cell.key, Phase.hasKey])
      (if_pos rfl) ?_ (fun o hi hv => by rw [if_neg hi, if_neg hv]) fun _ => Iff.rfl
    simpa [Cell.key, Phase.hasKey] using hchan
  obtain ⟨hinv, hmoves⟩ := step_vdev h (i := i) (v := v) (c := .live d .listed) (K := s.keys) (M := s.mapped)
    (L := s.list ++ [v]) (C := s.count) (R := s.reserved.erase i)
    (x := { s.held i with channel := none, mapping := none, vdev := none, naming := some v })
    ⟨hok.1, fun _ => rfl⟩ (by simp [Cell.thread, Phase.thread]) (fun w hw => by simp [hh.vdev, Ne.symm hw])
    (by simp [hv, Cell.thread, Phase.thread]) (by rw [hv]; rfl) (.inl rfl) (by simp [hv, Cell.isGone, Phase.isGone])
    (h.shape.nodup.append (List.nodup_singleton v) (by simpa using h.not_listed hoff))
    (fun w hw => by simp [hw]) (by simp [Cell.onList, Phase.onList]) (fun w chan _ hf => find_concat h hoff _ hf)
    ⟨by rw [List.length_append, List.length_singleton]; have := h.counts.count; push_cast; omega, h.counts.bound⟩
    (fun j hj => by simp [hj]) hnames (by simp [eq_comm]) hmappings hkeys
  refine ⟨hinv, hmoves, ?_, ?_, ?_, ?_, by simp [State.revise]⟩
  all_goals simp [State.revise]

/-- The name is copied. -/
theorem step_loadName (h : Inv honest patient s) (hh : Copies i v s) (name : String) :
    Inv honest patient (after i s (.loadName v) name) ∧ Moves i s (after i s (.loadName v) name) ∧
      Holds i none none none false (after i s (.loadName v) name) ∧
      ((after i s (.loadName v) name).held i).registered = (s.held i).registered := by
  obtain ⟨hinv, hmoves⟩ := step_pools h (i := i) (f := fun h => { h with naming := none }) rfl rfl
    (h.mappings.congr (mapOwner_same rfl) fun _ => Iff.rfl)
    (fun hon => (h.keys hon).congr (keyOwner_same rfl) fun _ => Iff.rfl)
  refine ⟨hinv, hmoves, ⟨?_, ?_, ?_, ?_, iff_of_false hh.reserved (by simp)⟩, ?_⟩
  · simpa [after_loadName] using hh.channel
  · simpa [after_loadName] using hh.mapping
  · simpa [after_loadName] using hh.vdev
  · simp [after_loadName]
  · simp [after_loadName]

end Registry

end Axivc

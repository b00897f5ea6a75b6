import Axivc.RegistryInv

/-!
# Axivc.RegistrySteps

What a step of the registry may change without breaking the invariant or
taking away what the other calls rely on.

A step changes one record and what one call holds (`step_vdev`,
`step_record`), or only what the call holds (`step_pools`, `step_places`).
-/

namespace Axivc

namespace Registry

open Prog Rely

variable {Chan : Type} {honest patient : Prop} {i v : Nat} {s t : State Chan}
  {channel : Option Chan} {mapping vdev : Option Nat} {reserved : Bool} {chan : Chan} {d : Vdev Chan} {p : Phase}

/-- What call `i` holds; it has no name to copy. -/
structure Holds (i : Nat) (channel : Option Chan) (mapping vdev : Option Nat) (reserved : Bool) (s : State Chan) :
    Prop where
  channel : (s.held i).channel = channel
  mapping : (s.held i).mapping = mapping
  vdev : (s.held i).vdev = vdev
  naming : (s.held i).naming = none
  reserved : i ∈ s.reserved ↔ reserved = true

theorem Holds.stable [DecidableEq Chan] (h : Holds i channel mapping vdev reserved s) (hk : Kept i s t) :
    Holds i channel mapping vdev reserved t := by
  refine ⟨?_, ?_, ?_, ?_, hk.reserved.trans h.reserved⟩
  · rw [hk.held]; exact h.channel
  · rw [hk.held]; exact h.mapping
  · rw [hk.held]; exact h.vdev
  · rw [hk.held]; exact h.naming

/-- Call `i` has listed record `v` and has still to copy its name. -/
structure Copies (i v : Nat) (s : State Chan) : Prop where
  channel : (s.held i).channel = none
  mapping : (s.held i).mapping = none
  vdev : (s.held i).vdev = none
  naming : (s.held i).naming = some v
  reserved : i ∉ s.reserved

theorem Copies.stable [DecidableEq Chan] (h : Copies i v s) (hk : Kept i s t) : Copies i v t := by
  refine ⟨?_, ?_, ?_, ?_, fun hmem => h.reserved (hk.reserved.mp hmem)⟩
  · rw [hk.held]; exact h.channel
  · rw [hk.held]; exact h.mapping
  · rw [hk.held]; exact h.vdev
  · rw [hk.held]; exact h.naming

theorem Holds.setFile {f : Nat} {x : Option File} (h : Holds i channel mapping vdev reserved s) :
    Holds i channel mapping vdev reserved (s.setFile f x) :=
  ⟨h.channel, h.mapping, h.vdev, h.naming, h.reserved⟩

@[simp] theorem onHeld_self (s : State Chan) (i : Nat) (f : Held Chan → Held Chan) :
    (s.onHeld i f).held i = f (s.held i) := Function.update_self ..

theorem onHeld_of_ne (s : State Chan) {i j : Nat} (f : Held Chan → Held Chan) (h : j ≠ i) :
    (s.onHeld i f).held j = s.held j := Function.update_of_ne h ..

theorem onVdev_live (h : s.heap v = .live d p) (f : Vdev Chan → Vdev Chan) (g : Phase → Phase) :
    s.onVdev v f g = { s with heap := Function.update s.heap v (.live (f d) (g p)) } := by
  rw [State.onVdev, h]

theorem onVdev_held (s : State Chan) (v : Nat) (g : Vdev Chan → Vdev Chan) (q : Phase → Phase) :
    (s.onVdev v g q).held = s.held ∧ (s.onVdev v g q).reserved = s.reserved := by
  rw [State.onVdev]
  cases s.heap v <;> exact ⟨rfl, rfl⟩

theorem Holds.onVdev (h : Holds i none none none false s) (g : Vdev Chan → Vdev Chan) (q : Phase → Phase) :
    Holds i none none none false (s.onVdev v g q) := by
  obtain ⟨hheld, hreserved⟩ := onVdev_held s v g q
  refine ⟨?_, ?_, ?_, ?_, ?_⟩
  · rw [hheld]; exact h.channel
  · rw [hheld]; exact h.mapping
  · rw [hheld]; exact h.vdev
  · rw [hheld]; exact h.naming
  · rw [hreserved]; exact h.reserved

/-- When the module has been loaded the books are in balance. -/
theorem inv_init (honest patient : Prop) : Inv honest patient (State.init : State Chan) where
  shape := ⟨List.nodup_nil, by simp [State.init, Cell.onList], fun _ => trivial, by simp [State.init, Cell.thread]⟩
  mappings := .empty (fun o => by cases o <;> rfl) (by simp [State.init])
  keys _ := .empty (fun o => by cases o <;> rfl) (by simp [State.init])
  files := ⟨.empty (fun _ => rfl) (by simp [State.init, Cell.isActive]), by simp [State.init]⟩
  counts := ⟨rfl, by simp [State.init, maxVdevs]⟩
  names _ := by simp [Names, State.init, Held.nothing]

theorem holds_init (i : Nat) : Holds i none none none false (State.init : State Chan) :=
  ⟨rfl, rfl, rfl, rfl, by simp [State.init]⟩

/-! ## the books of the others -/

theorem mapOwner_same (h : mapping = (s.held i).mapping) (o : Owner) :
    (if o = .call i then mapping else s.mapOwner o) = s.mapOwner o := by
  by_cases ho : o = .call i
  · rw [if_pos ho, ho, h]
    rfl
  · rw [if_neg ho]

theorem keyOwner_same (h : channel = (s.held i).channel) (o : Owner) :
    (if o = .call i then channel else s.keyOwner o) = s.keyOwner o := by
  by_cases ho : o = .call i
  · rw [if_pos ho, ho, h]
    rfl
  · rw [if_neg ho]

/-- Neither the call nor the record gets or gives up a mapping. -/
theorem Inv.mappings_same (h : Inv honest patient s) {c : Cell Chan} {x : Held Chan}
    (hx : x.mapping = (s.held i).mapping) (hc : c.mapping = (s.heap v).mapping) :
    Ledger (fun o => if o = .call i then x.mapping else if o = .device v then c.mapping else s.mapOwner o)
      (· ∈ s.mapped) := by
  refine h.mappings.congr (fun o => ?_) fun _ => Iff.rfl
  by_cases hv : o = .device v
  · rw [hv, if_neg (by simp), if_pos rfl, hc]
    rfl
  · rw [if_neg hv]
    exact mapOwner_same hx o

/-- Neither the call nor the record gets or gives up a channel. -/
theorem Inv.keys_same (h : Inv honest patient s) (hon : honest) {c : Cell Chan} {x : Held Chan}
    (hx : x.channel = (s.held i).channel) (hc : c.key = (s.heap v).key) :
    Ledger (fun o => if o = .call i then x.channel else if o = .device v then c.key else s.keyOwner o)
      (· ∈ s.keys) := by
  refine (h.keys hon).congr (fun o => ?_) fun _ => Iff.rfl
  by_cases hv : o = .device v
  · rw [hv, if_neg (by simp), if_pos rfl, hc]
    rfl
  · rw [if_neg hv]
    exact keyOwner_same hx o

/-- No open callback runs on a device that is not registered. -/
theorem Inv.not_running (h : Inv honest patient s) (hv : (s.heap v).isRegistered = false) (f : Nat) (file : File)
    (hf : s.files f = some file) (hfile : file.vdev = v) : file.stage.isRunning = false := by
  by_contra hrun
  have hreg := h.files.opening f file hf (by simpa using hrun)
  rw [hfile, hv] at hreg
  cases hreg

/-- A device that cannot be open is not. -/
theorem Inv.not_active (h : Inv honest patient s) (hv : s.heap v = .live d p) (hp : p.mayOpen = false) :
    d.active = false := by
  have hok := h.shape.ok v
  rw [hv] at hok
  by_contra hactive
  have hopen := hok.2 (by simpa using hactive)
  rw [hp] at hopen
  cases hopen

/-- A device that is open through a file is marked as open. -/
theorem Inv.live_of_open (h : Inv honest patient s) {f : Nat} (hf : openDevice (s.files f) = some v) :
    ∃ d p, s.heap v = .live d p ∧ d.active = true := by
  have hactive := h.files.opened.mem hf
  cases hc : s.heap v with
  | live d p =>
      rw [hc] at hactive
      exact ⟨d, p, rfl, hactive⟩
  | unused | freed =>
      rw [hc] at hactive
      cases hactive

/-- A device is registered while an open callback runs on it. -/
theorem Inv.live_of_running (h : Inv honest patient s) {f : Nat} {stage : FileStage} (hf : s.files f = some ⟨v, stage⟩)
    (hrun : stage.isRunning = true) : ∃ d p, s.heap v = .live d p ∧ p.isRegistered = true := by
  have hreg := h.files.opening f _ hf hrun
  cases hc : s.heap v with
  | live d p =>
      rw [hc] at hreg
      exact ⟨d, p, rfl, hreg⟩
  | unused | freed =>
      rw [hc] at hreg
      cases hreg

/-- A listed record is allocated. -/
theorem Inv.live_of_listed (h : Inv honest patient s) (hv : v ∈ s.list) : (s.heap v).isLive = true := by
  have hon := (h.shape.listed v).mp hv
  cases hc : s.heap v with
  | live d p => rfl
  | unused | freed =>
      rw [hc] at hon
      cases hon

/-- A record off the list is none of those a walk compares. -/
theorem Inv.not_listed (h : Inv honest patient s) (hv : (s.heap v).onList = false) : v ∉ s.list := fun hmem => by
  rw [h.shape.listed, hv] at hmem
  cases hmem

/-- With `x` for what call `i` holds, whoever has still to copy the name in `v`
finds it in `c`. -/
def NamesIn (s : State Chan) (i v : Nat) (x : Held Chan) (c : Cell Chan) : Prop :=
  ∀ j, (if j = i then x else s.held j).naming = some v →
    ∃ d p, c = .live d p ∧ p.isNew = false ∧ d.name = (if j = i then x else s.held j).registered

/-- Nobody copies the name of a record that has not been listed. -/
theorem Inv.names_of_new (h : Inv honest patient s) {x : Held Chan} {c : Cell Chan} (hnone : x.naming = none)
    (hv : ∀ d p, s.heap v = .live d p → p.isNew = true) (hp : patient) : NamesIn s i v x c := by
  intro j hj
  by_cases hji : j = i
  · rw [if_pos hji, hnone] at hj
    cases hj
  · rw [if_neg hji] at hj
    obtain ⟨d, p, hc, hnew, -⟩ := h.names hp j v hj
    rw [hv d p hc] at hnew
    cases hnew

/-- A record that has been listed keeps its name. -/
theorem Inv.names_of_live (h : Inv honest patient s) {x : Held Chan} {d' : Vdev Chan} {p' : Phase}
    (hnone : x.naming = none) (hv : s.heap v = .live d p) (hname : d'.name = d.name) (hnew : p'.isNew = false)
    (hp : patient) : NamesIn s i v x (.live d' p') := by
  intro j hj
  by_cases hji : j = i
  · rw [if_pos hji, hnone] at hj
    cases hj
  · rw [if_neg hji] at hj ⊢
    obtain ⟨d₀, p₀, hc, -, hreg⟩ := h.names hp j v hj
    rw [hv] at hc
    cases hc
    exact ⟨d', p', rfl, hnew, hname.trans hreg⟩

/-! ## changes of one record -/

/-- Another record `v`, other pools, list, counter and places, and call `i`
holds something else. -/
def State.revise (s : State Chan) (i v : Nat) (K : Finset Chan) (M : Finset Nat) (L : List Nat) (C : Int)
    (c : Cell Chan) (R : Finset Nat) (x : Held Chan) : State Chan :=
  { s with
    keys := K
    mapped := M
    list := L
    count := C
    heap := Function.update s.heap v c
    held := Function.update s.held i x
    reserved := R }

theorem Holds.revise {K : Finset Chan} {M R : Finset Nat} {L : List Nat} {C : Int} {c : Cell Chan} {x : Held Chan}
    (hchannel : x.channel = channel) (hmapping : x.mapping = mapping) (hvdev : x.vdev = vdev) (hnaming : x.naming = none)
    (hreserved : i ∈ R ↔ reserved = true) : Holds i channel mapping vdev reserved (s.revise i v K M L C c R x) := by
  have hself : (s.revise i v K M L C c R x).held i = x := Function.update_self ..
  refine ⟨?_, ?_, ?_, ?_, hreserved⟩
  · rw [hself]; exact hchannel
  · rw [hself]; exact hmapping
  · rw [hself]; exact hvdev
  · rw [hself]; exact hnaming

/-- Who owns what after a change of record `v` by call `i`. -/
theorem owner_of_change {γ : Type} {owner : State Chan → Owner → Option γ} (F : Held Chan → Option γ)
    (G : Cell Chan → Option γ) (hcall : ∀ s j, owner s (.call j) = F (s.held j))
    (hdevice : ∀ s w, owner s (.device w) = G (s.heap w)) {c : Cell Chan} {x : Held Chan}
    (hheap : t.heap = Function.update s.heap v c) (hheld : ∀ j, t.held j = if j = i then x else s.held j) (o : Owner) :
    owner t o = if o = .call i then F x else if o = .device v then G c else owner s o := by
  cases o with
  | call j =>
      rw [hcall, hcall, hheld]
      by_cases hj : j = i
      · simp [hj]
      · simp [hj]
  | device w =>
      rw [hdevice, hdevice, hheap]
      by_cases hw : w = v
      · simp [hw]
      · simp [hw]

variable [DecidableEq Chan]

theorem hasChannel_eq (s : State Chan) (chan : Chan) (v : Nat) :
    s.hasChannel chan v = decide ((s.heap v).channel = some chan) := by
  rw [State.hasChannel]
  cases s.heap v <;> simp [Cell.channel]

/-- The walk compares the channels of the records on its list only. -/
theorem find_update {c : Cell Chan} {l : List Nat} {w : Nat} (hc : v ∈ l → c.channel = (s.heap v).channel)
    (hf : l.find? (s.hasChannel chan) = some w) :
    l.find? (({ s with heap := Function.update s.heap v c } : State Chan).hasChannel chan) = some w := by
  rw [← hf]
  refine List.find?_congr fun y hy => ?_
  rw [hasChannel_eq, hasChannel_eq]
  have hsame : (Function.update s.heap v c y).channel = (s.heap y).channel := by
    by_cases hyv : y = v
    · rw [hyv, Function.update_self, hc (hyv ▸ hy)]
    · rw [Function.update_of_ne hyv]
  simp only [hsame]

/-- A change of record `v` by call `i`, with everything that may go with it. -/
theorem step_vdev (h : Inv honest patient s) {c : Cell Chan} {x : Held Chan} {K : Finset Chan}
    {M R : Finset Nat} {L : List Nat} {C : Int} (hok : c.Ok)
    (hthread : ∀ j, c.thread = some j → j = i ∧ x.vdev = some v)
    (hcontrol : ∀ w, w ≠ v → (s.held i).vdev ≠ some w) (hmine : ∀ j, (s.heap v).thread = some j → j = i)
    (hactive : c.isActive = (s.heap v).isActive)
    (hregistered : c.isRegistered = true ∨
      ∀ f file, s.files f = some file → file.vdev = v → file.stage.isRunning = false)
    (hgone : (s.heap v).isGone = true → c.isGone = true)
    (hnodup : L.Nodup) (hlisted : ∀ w, w ≠ v → (w ∈ L ↔ w ∈ s.list)) (hlist : v ∈ L ↔ c.onList = true)
    (hfirst : ∀ w chan, w ≠ v → s.list.find? (s.hasChannel chan) = some w →
      L.find? (({ s with heap := Function.update s.heap v c } : State Chan).hasChannel chan) = some w)
    (hcount : C = L.length + R.card ∧ C ≤ maxVdevs) (hreserved : ∀ j, j ≠ i → (j ∈ R ↔ j ∈ s.reserved))
    (hnames : patient → NamesIn s i v x c)
    (hnaming : ∀ w, w ≠ v → x.naming ≠ some w)
    (hmappings : Ledger (fun o => if o = .call i then x.mapping else
      if o = .device v then c.mapping else s.mapOwner o) (· ∈ M))
    (hkeys : honest → Ledger (fun o => if o = .call i then x.channel else
      if o = .device v then c.key else s.keyOwner o) (· ∈ K)) :
    Inv honest patient (s.revise i v K M L C c R x) ∧ Moves i s (s.revise i v K M L C c R x) := by
  generalize ht : s.revise i v K M L C c R x = t
  have hheap : t.heap = Function.update s.heap v c := by rw [← ht]; rfl
  have hself : t.held i = x := by rw [← ht]; exact Function.update_self ..
  have hothers (j : Nat) (hj : j ≠ i) : t.held j = s.held j := by rw [← ht]; exact Function.update_of_ne hj ..
  have hheld (j : Nat) : t.held j = if j = i then x else s.held j := by
    by_cases hj : j = i
    · rw [if_pos hj, hj, hself]
    · rw [if_neg hj, hothers j hj]
  constructor
  · refine h.of_vdev i v hheap ?_ ?_ ?_ hok ?_ hcontrol hothers ?_ hactive hregistered ?_ ?_ ?_ ?_ ?_
    · rw [← ht]; exact hnodup
    · rw [← ht]; exact hlisted
    · rw [← ht]; exact hlist
    · rw [hself]; exact hthread
    · rw [← ht]; rfl
    · rw [← ht]; exact ⟨hcount.1, hcount.2⟩
    · intro hp j hj
      rw [hheld] at hj ⊢
      exact hnames hp j hj
    · intro w hw hn
      rw [hself] at hn
      exact absurd hn (hnaming w hw)
    · rw [← ht]
      refine hmappings.congr (fun o => ?_) fun _ => Iff.rfl
      rw [ht]
      exact owner_of_change Held.mapping Cell.mapping (fun _ _ => rfl) (fun _ _ => rfl) hheap hheld o
    · intro hon
      rw [← ht]
      refine (hkeys hon).congr (fun o => ?_) fun _ => Iff.rfl
      rw [ht]
      exact owner_of_change Held.channel Cell.key (fun _ _ => rfl) (fun _ _ => rfl) hheap hheld o
  · refine .of_vdev hheap hothers ?_ hmine hgone ?_ ?_
    · rw [← ht]; exact hreserved
    · intro w chan hw hf
      have hfind := hfirst w chan hw hf
      rw [← ht]
      exact hfind
    · rw [← ht]; rfl

/-- A change of record `v` by call `i` and nothing else: it stays on or off the
list and stands for what it stood for. -/
theorem step_record (h : Inv honest patient s) {c : Cell Chan} {x : Held Chan} (hok : c.Ok)
    (hthread : ∀ j, c.thread = some j → j = i ∧ x.vdev = some v)
    (hcontrol : ∀ w, w ≠ v → (s.held i).vdev ≠ some w) (hmine : ∀ j, (s.heap v).thread = some j → j = i)
    (hactive : c.isActive = (s.heap v).isActive)
    (hregistered : c.isRegistered = true ∨
      ∀ f file, s.files f = some file → file.vdev = v → file.stage.isRunning = false)
    (hgone : (s.heap v).isGone = true → c.isGone = true)
    (hlist : c.onList = (s.heap v).onList) (hchannel : (s.heap v).onList = true → c.channel = (s.heap v).channel)
    (hnames : patient → NamesIn s i v x c)
    (hnaming : ∀ w, w ≠ v → x.naming ≠ some w)
    (hmapping : x.mapping = (s.held i).mapping ∧ c.mapping = (s.heap v).mapping)
    (hkey : x.channel = (s.held i).channel ∧ c.key = (s.heap v).key) :
    Inv honest patient (s.revise i v s.keys s.mapped s.list s.count c s.reserved x) ∧
      Moves i s (s.revise i v s.keys s.mapped s.list s.count c s.reserved x) := by
  refine step_vdev h hok hthread hcontrol hmine hactive hregistered hgone h.shape.nodup (fun _ _ => Iff.rfl) ?_ ?_
    ⟨h.counts.count, h.counts.bound⟩ (fun _ _ => Iff.rfl) hnames hnaming ?_ ?_
  · rw [hlist]
    exact h.shape.listed v
  · intro w chan _ hf
    exact find_update (fun hl => hchannel ((h.shape.listed v).mp hl)) hf
  · exact h.mappings_same hmapping.1 hmapping.2
  · exact fun hon => h.keys_same hon hkey.1 hkey.2

/-- The walk does not see a record that is put at the end of the list. -/
theorem find_concat (h : Inv honest patient s) (hv : (s.heap v).onList = false) (c : Cell Chan) {w : Nat}
    (hf : s.list.find? (s.hasChannel chan) = some w) :
    (s.list ++ [v]).find? (({ s with heap := Function.update s.heap v c } : State Chan).hasChannel chan) = some w := by
  rw [List.find?_append, find_update (fun hl => absurd hl (h.not_listed hv)) hf]
  rfl

theorem after_kfree [Inhabited Chan] (i v : Nat) (s : State Chan) : after i s (.kfree v) () =
    s.revise i v s.keys s.mapped s.list s.count .freed s.reserved { s.held i with vdev := none } := rfl

/-! ## changes of what a call holds -/

/-- Call `i` gets or gives back a channel or a mapping. -/
theorem step_pools (h : Inv honest patient s) {K : Finset Chan} {M : Finset Nat} {f : Held Chan → Held Chan}
    (hvdev : (f (s.held i)).vdev = (s.held i).vdev) (hnaming : (f (s.held i)).naming = none)
    (hmappings : Ledger (fun o => if o = .call i then (f (s.held i)).mapping else s.mapOwner o) (· ∈ M))
    (hkeys : honest → Ledger (fun o => if o = .call i then (f (s.held i)).channel else s.keyOwner o) (· ∈ K)) :
    Inv honest patient ({ s with keys := K, mapped := M }.onHeld i f) ∧
      Moves i s ({ s with keys := K, mapped := M }.onHeld i f) := by
  have hothers (j : Nat) (hj : j ≠ i) : ({ s with keys := K, mapped := M }.onHeld i f).held j = s.held j :=
    onHeld_of_ne _ f hj
  refine ⟨h.of_held i rfl rfl rfl ⟨h.counts.count, h.counts.bound⟩ hothers ?_ ?_ ?_ ?_,
    .of_held hothers (fun _ _ => Iff.rfl) rfl rfl rfl⟩
  · rw [onHeld_self]
    exact hvdev
  · intro w hw
    rw [onHeld_self, show ({ s with keys := K, mapped := M } : State Chan).held = s.held from rfl, hnaming] at hw
    cases hw
  · refine hmappings.congr (fun o => ?_) fun _ => Iff.rfl
    cases o with
    | call j =>
        by_cases hj : j = i
        · subst hj
          simp [State.mapOwner]
        · simp [State.mapOwner, hothers j hj, hj]
    | device w => simp [State.mapOwner, State.onHeld]
  · intro hhonest
    refine (hkeys hhonest).congr (fun o => ?_) fun _ => Iff.rfl
    cases o with
    | call j =>
        by_cases hj : j = i
        · subst hj
          simp [State.keyOwner]
        · simp [State.keyOwner, hothers j hj, hj]
    | device w => simp [State.keyOwner, State.onHeld]

/-- A place is reserved, or given back. -/
theorem step_places (h : Inv honest patient s) {C : Int} {n : Nat} {R : Finset Nat}
    (hcount : C = s.list.length + R.card) (hbound : C ≤ maxVdevs) (hreserved : ∀ j, j ≠ i → (j ∈ R ↔ j ∈ s.reserved)) :
    Inv honest patient { s with count := C, nextId := n, reserved := R } ∧
      Moves i s { s with count := C, nextId := n, reserved := R } :=
  ⟨h.of_held i rfl rfl rfl ⟨hcount, hbound⟩ (fun _ _ => rfl) rfl (fun _ hv => ⟨hv, rfl⟩) h.mappings h.keys,
    .of_held (fun _ _ => rfl) hreserved rfl rfl rfl⟩

end Registry

end Axivc

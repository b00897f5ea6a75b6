import Axivc.Lib.Ledger
import Axivc.Registry
import Mathlib.Data.List.Find

/-!
# Axivc.RegistryInv

The invariant of the registry, and what each step does to it.

It has six parts: the records and the list fit together (`Shape`); every
mapping, and every channel at the hypervisor, is held by one call or one record
(`Ledger`s over `Owner`); every open device is open through one file
(`Files`); the counter counts (`Counts`); a record whose name is still to be
copied is there (`Names`).  The part on channels needs verdicts that the driver
reads as they are meant (`honest`), the part on names a driver that does not
free a record under a call that still needs it (`patient`).

A step changes the record of one device and what one call holds.  `Kept` says
what it leaves to the other calls.
-/

namespace Axivc

namespace Registry

open Prog Rely

/-! ## who owns what -/

/-- A call, or a device record. -/
inductive Owner where
  | call (i : Nat)
  | device (v : Nat)
  deriving DecidableEq

/-- The channel a memory cell stands for at the hypervisor. -/
def Cell.key {Chan : Type} : Cell Chan → Option Chan
  | .live d p => if p.hasKey then some d.channel else none
  | _ => none

/-- The mapping a memory cell stands for. -/
def Cell.mapping {Chan : Type} : Cell Chan → Option Nat
  | .live d p => if p.hasMapping then d.mappedShmBase else none
  | _ => none

/-- The channel in the record. -/
def Cell.channel {Chan : Type} : Cell Chan → Option Chan
  | .live d _ => some d.channel
  | _ => none

/-- The cell is allocated. -/
def Cell.isLive {Chan : Type} : Cell Chan → Bool
  | .live _ _ => true
  | _ => false

/-- The record in the cell is on the list. -/
def Cell.onList {Chan : Type} : Cell Chan → Bool
  | .live _ p => p.onList
  | _ => false

/-- The device of the record is registered. -/
def Cell.isRegistered {Chan : Type} : Cell Chan → Bool
  | .live _ p => p.isRegistered
  | _ => false

/-- The device of the record is marked as open. -/
def Cell.isActive {Chan : Type} : Cell Chan → Bool
  | .live d _ => d.active
  | _ => false

/-- The device of the record will not be registered any more. -/
def Cell.isGone {Chan : Type} : Cell Chan → Bool
  | .live _ p => p.isGone
  | .freed => true
  | .unused => false

/-- The call that controls the record. -/
def Cell.thread {Chan : Type} : Cell Chan → Option Nat
  | .live _ p => p.thread
  | _ => none

/-- The flags in the record agree with its phase. -/
def Cell.Ok {Chan : Type} : Cell Chan → Prop
  | .live d p => d.removing = p.isRemoving ∧ (d.active = true → p.mayOpen = true)
  | _ => True

/-- The device a file has open. -/
def openDevice : Option File → Option Nat
  | some file => if file.stage.isOpen then some file.vdev else none
  | none => none

variable {Chan : Type}

namespace State

/-- Who has a channel at the hypervisor. -/
def keyOwner (s : State Chan) : Owner → Option Chan
  | .call i => (s.held i).channel
  | .device v => (s.heap v).key

/-- Who has a mapping. -/
def mapOwner (s : State Chan) : Owner → Option Nat
  | .call i => (s.held i).mapping
  | .device v => (s.heap v).mapping

end State

/-! ## the invariant -/

/-- The records, the list, and the calls that control a record. -/
structure Shape (s : State Chan) : Prop where
  nodup : s.list.Nodup
  listed : ∀ v, v ∈ s.list ↔ (s.heap v).onList = true
  ok : ∀ v, (s.heap v).Ok
  owner : ∀ v i, (s.heap v).thread = some i → (s.held i).vdev = some v

/-- Every open device is open through one file; the device is registered while
an open callback runs. -/
structure Files (s : State Chan) : Prop where
  opened : Ledger (fun f => openDevice (s.files f)) (fun v => (s.heap v).isActive = true)
  opening : ∀ f file, s.files f = some file → file.stage.isRunning = true → (s.heap file.vdev).isRegistered = true

/-- The counter counts the listed records and the reserved places. -/
structure Counts (s : State Chan) : Prop where
  count : s.count = s.list.length + s.reserved.card
  bound : s.count ≤ maxVdevs

/-- A record whose name a call has still to copy is allocated, has been listed,
and has the name that the call has registered. -/
def Names (s : State Chan) : Prop :=
  ∀ i v, (s.held i).naming = some v → ∃ d p, s.heap v = .live d p ∧ p.isNew = false ∧ d.name = (s.held i).registered

/-- The invariant of the registry. -/
structure Inv (honest patient : Prop) (s : State Chan) : Prop where
  shape : Shape s
  mappings : Ledger s.mapOwner (· ∈ s.mapped)
  keys : honest → Ledger s.keyOwner (· ∈ s.keys)
  files : Files s
  counts : Counts s
  names : patient → Names s

/-! ## changes with the books in balance -/

section Steps

variable {honest patient : Prop} {s t : State Chan}

/-- A change of what one call holds, with the books in balance. -/
theorem Inv.of_held (h : Inv honest patient s) (i : Nat) (hheap : t.heap = s.heap) (hlist : t.list = s.list)
    (hfiles : t.files = s.files) (hcounts : Counts t) (hothers : ∀ j, j ≠ i → t.held j = s.held j)
    (hvdev : (t.held i).vdev = (s.held i).vdev)
    (hnaming : ∀ v, (t.held i).naming = some v → (s.held i).naming = some v ∧ (t.held i).registered = (s.held i).registered)
    (hmappings : Ledger t.mapOwner (· ∈ t.mapped)) (hkeys : honest → Ledger t.keyOwner (· ∈ t.keys)) :
    Inv honest patient t where
  shape :=
    { nodup := by rw [hlist]; exact h.shape.nodup
      listed := by rw [hlist, hheap]; exact h.shape.listed
      ok := by rw [hheap]; exact h.shape.ok
      owner := by
        intro v j hj
        rw [hheap] at hj
        by_cases hji : j = i
        · rw [hji, hvdev, ← hji]
          exact h.shape.owner v j hj
        · rw [hothers j hji]
          exact h.shape.owner v j hj }
  mappings := hmappings
  keys := hkeys
  files := ⟨by rw [hheap, hfiles]; exact h.files.opened, by rw [hheap, hfiles]; exact h.files.opening⟩
  counts := hcounts
  names hp := by
    intro j v hj
    rw [hheap]
    by_cases hji : j = i
    · subst hji
      obtain ⟨hold, hreg⟩ := hnaming v hj
      rw [hreg]
      exact h.names hp j v hold
    · rw [hothers j hji] at hj ⊢
      exact h.names hp j v hj

/-- A change of one record by the call that controls it, or takes control of
it, with the books in balance. -/
theorem Inv.of_vdev (h : Inv honest patient s) (i v : Nat) {c : Cell Chan} (hheap : t.heap = Function.update s.heap v c)
    (hnodup : t.list.Nodup) (hlisted : ∀ w, w ≠ v → (w ∈ t.list ↔ w ∈ s.list)) (hlist : v ∈ t.list ↔ c.onList = true)
    (hok : c.Ok) (hthread : ∀ j, c.thread = some j → j = i ∧ (t.held i).vdev = some v)
    (hcontrol : ∀ w, w ≠ v → (s.held i).vdev ≠ some w)
    (hothers : ∀ j, j ≠ i → t.held j = s.held j) (hfiles : t.files = s.files)
    (hactive : c.isActive = (s.heap v).isActive)
    (hregistered : c.isRegistered = true ∨
      ∀ f file, s.files f = some file → file.vdev = v → file.stage.isRunning = false)
    (hcounts : Counts t)
    (hnames : patient → ∀ j, (t.held j).naming = some v →
      ∃ d p, c = .live d p ∧ p.isNew = false ∧ d.name = (t.held j).registered)
    (hnaming : ∀ w, w ≠ v → (t.held i).naming = some w →
      (s.held i).naming = some w ∧ (t.held i).registered = (s.held i).registered)
    (hmappings : Ledger t.mapOwner (· ∈ t.mapped)) (hkeys : honest → Ledger t.keyOwner (· ∈ t.keys)) :
    Inv honest patient t where
  shape :=
    { nodup := hnodup
      listed := by
        intro w
        rw [hheap]
        by_cases hw : w = v
        · rw [hw, Function.update_self]
          exact hlist
        · rw [Function.update_of_ne hw, hlisted w hw]
          exact h.shape.listed w
      ok := by
        intro w
        rw [hheap]
        by_cases hw : w = v
        · rw [hw, Function.update_self]
          exact hok
        · rw [Function.update_of_ne hw]
          exact h.shape.ok w
      owner := by
        intro w j hj
        rw [hheap] at hj
        by_cases hw : w = v
        · rw [hw, Function.update_self] at hj
          obtain ⟨rfl, hheld⟩ := hthread j hj
          rw [hw]
          exact hheld
        · rw [Function.update_of_ne hw] at hj
          have hold := h.shape.owner w j hj
          have hji : j ≠ i := fun hji => hcontrol w hw (hji ▸ hold)
          rw [hothers j hji]
          exact hold }
  mappings := hmappings
  keys := hkeys
  files :=
    { opened := by
        rw [hfiles]
        refine h.files.opened.congr (fun _ => rfl) fun w => ?_
        rw [hheap]
        by_cases hw : w = v
        · rw [hw, Function.update_self, hactive]
        · rw [Function.update_of_ne hw]
      opening := by
        intro f file hf hrun
        rw [hfiles] at hf
        rw [hheap]
        by_cases hw : file.vdev = v
        · rw [hw, Function.update_self]
          refine hregistered.resolve_right fun hnone => ?_
          rw [hnone f file hf hw] at hrun
          cases hrun
        · rw [Function.update_of_ne hw]
          exact h.files.opening f file hf hrun }
  counts := hcounts
  names hp := by
    intro j w hj
    rw [hheap]
    by_cases hw : w = v
    · rw [hw, Function.update_self]
      exact hnames hp j (hw ▸ hj)
    · rw [Function.update_of_ne hw]
      by_cases hji : j = i
      · subst hji
        obtain ⟨hold, hreg⟩ := hnaming w hw hj
        rw [hreg]
        exact h.names hp j w hold
      · rw [hothers j hji] at hj ⊢
        exact h.names hp j w hj

end Steps

/-! ## what the other calls keep -/

variable [DecidableEq Chan]

/-- What the steps of the others leave to call `i`: what it holds, the records
it controls up to the mark of an open device, the files it works on. -/
structure Kept (i : Nat) (s t : State Chan) : Prop where
  held : t.held i = s.held i
  reserved : i ∈ t.reserved ↔ i ∈ s.reserved
  vdev : ∀ v d p, s.heap v = .live d p → p.thread = some i → ∃ a, t.heap v = .live { d with active := a } p
  /-- a record that the walk finds first is not overtaken -/
  first : ∀ v chan, (s.heap v).thread = some i → s.list.find? (s.hasChannel chan) = some v →
    t.list.find? (t.hasChannel chan) = some v
  running : ∀ f v, (s.files f = some ⟨v, .opening i⟩ → t.files f = some ⟨v, .opening i⟩) ∧
    (s.files f = some ⟨v, .acquired i⟩ → t.files f = some ⟨v, .acquired i⟩) ∧
    (s.files f = some ⟨v, .releasing i⟩ → t.files f = some ⟨v, .releasing i⟩)
  io : ∀ f v ios, s.files f = some ⟨v, .usable ios⟩ → i ∈ ios → ∃ ios', t.files f = some ⟨v, .usable ios'⟩ ∧ i ∈ ios'

namespace Kept

variable {i : Nat} {s t u : State Chan}

theorem refl (i : Nat) (s : State Chan) : Kept i s s :=
  ⟨rfl, Iff.rfl, fun _ d _ h _ => ⟨d.active, h⟩, fun _ _ _ h => h, fun _ _ => ⟨id, id, id⟩,
    fun _ _ ios h hi => ⟨ios, h, hi⟩⟩

theorem trans (h : Kept i s t) (h' : Kept i t u) : Kept i s u where
  held := h'.held.trans h.held
  reserved := h'.reserved.trans h.reserved
  vdev v d p hs hp := by
    obtain ⟨a, ht⟩ := h.vdev v d p hs hp
    obtain ⟨b, hu⟩ := h'.vdev v _ p ht hp
    exact ⟨b, hu⟩
  first v chan hs hf := by
    refine h'.first v chan ?_ (h.first v chan hs hf)
    cases hc : s.heap v with
    | live d p =>
        rw [hc] at hs
        obtain ⟨a, ht⟩ := h.vdev v d p hc hs
        rw [ht]
        exact hs
    | unused | freed =>
        rw [hc] at hs
        cases hs
  running f v := ⟨fun hs => (h'.running f v).1 ((h.running f v).1 hs),
    fun hs => (h'.running f v).2.1 ((h.running f v).2.1 hs), fun hs => (h'.running f v).2.2 ((h.running f v).2.2 hs)⟩
  io f v ios hs hi := by
    obtain ⟨ios', ht, hi'⟩ := h.io f v ios hs hi
    exact h'.io f v ios' ht hi'

/-- The walk compares the channels of listed records only. -/
theorem first_of_list (hlist : t.list = s.list)
    (hchan : ∀ w ∈ s.list, ∀ chan, t.hasChannel chan w = s.hasChannel chan w) {v : Nat} {chan : Chan}
    (h : s.list.find? (s.hasChannel chan) = some v) : t.list.find? (t.hasChannel chan) = some v := by
  rw [hlist, ← h]
  exact List.find?_congr fun w hw => hchan w hw chan

/-- A step of call `i` that changes one record, which call `j` does not
control, and no file. -/
theorem of_vdev {j v : Nat} (hheld : t.held j = s.held j) (hreserved : j ∈ t.reserved ↔ j ∈ s.reserved)
    (hheap : ∀ w, w ≠ v → t.heap w = s.heap w) (hv : (s.heap v).thread ≠ some j)
    (hfirst : ∀ w chan, (s.heap w).thread = some j → s.list.find? (s.hasChannel chan) = some w →
      t.list.find? (t.hasChannel chan) = some w)
    (hfiles : t.files = s.files) : Kept j s t where
  held := hheld
  reserved := hreserved
  vdev w d p hw hp := by
    have hne : w ≠ v := by
      rintro rfl
      rw [hw] at hv
      exact hv hp
    exact ⟨d.active, (hheap w hne).trans hw⟩
  first := hfirst
  running f v := by rw [hfiles]; exact ⟨id, id, id⟩
  io f v ios h hi := by rw [hfiles]; exact ⟨ios, h, hi⟩

/-- A step of call `i` that changes no record and no file. -/
theorem of_held {j : Nat} (hheld : t.held j = s.held j) (hreserved : j ∈ t.reserved ↔ j ∈ s.reserved)
    (hheap : t.heap = s.heap) (hlist : t.list = s.list) (hfiles : t.files = s.files) : Kept j s t where
  held := hheld
  reserved := hreserved
  vdev w d p hw _ := ⟨d.active, by rw [hheap]; exact hw⟩
  first w chan _ hf := first_of_list hlist (fun w _ chan => by rw [State.hasChannel, State.hasChannel, hheap]) hf
  running f v := by rw [hfiles]; exact ⟨id, id, id⟩
  io f v ios h hi := by rw [hfiles]; exact ⟨ios, h, hi⟩

end Kept

/-- A step of call `i`: the others keep what is theirs, and no device comes
back. -/
structure Moves (i : Nat) (s t : State Chan) : Prop where
  kept : ∀ j, j ≠ i → Kept j s t
  gone : ∀ v, (s.heap v).isGone = true → (t.heap v).isGone = true

/-- A step that changes no record, no file and not the list. -/
theorem Moves.of_held {i : Nat} {s t : State Chan} (hheld : ∀ j, j ≠ i → t.held j = s.held j)
    (hreserved : ∀ j, j ≠ i → (j ∈ t.reserved ↔ j ∈ s.reserved)) (hheap : t.heap = s.heap) (hlist : t.list = s.list)
    (hfiles : t.files = s.files) : Moves i s t where
  kept j hj := .of_held (hheld j hj) (hreserved j hj) hheap hlist hfiles
  gone v h := by rw [hheap]; exact h

theorem Moves.refl (i : Nat) (s : State Chan) : Moves i s s := ⟨fun j _ => .refl j s, fun _ h => h⟩

/-- A step that changes one record that no other call controls, and no file;
the walks of the others are not affected. -/
theorem Moves.of_vdev {i v : Nat} {s t : State Chan} {c : Cell Chan} (hheap : t.heap = Function.update s.heap v c)
    (hheld : ∀ j, j ≠ i → t.held j = s.held j) (hreserved : ∀ j, j ≠ i → (j ∈ t.reserved ↔ j ∈ s.reserved))
    (hthread : ∀ j, (s.heap v).thread = some j → j = i) (hgone : (s.heap v).isGone = true → c.isGone = true)
    (hfirst : ∀ w chan, w ≠ v → s.list.find? (s.hasChannel chan) = some w → t.list.find? (t.hasChannel chan) = some w)
    (hfiles : t.files = s.files) : Moves i s t where
  kept j hj := by
    refine .of_vdev (hheld j hj) (hreserved j hj) (fun w hw => ?_) (fun h => hj (hthread j h)) (fun w chan hw hf => ?_) hfiles
    · rw [hheap, Function.update_of_ne hw]
    · refine hfirst w chan ?_ hf
      rintro rfl
      exact hj (hthread j hw)
  gone w h := by
    rw [hheap]
    by_cases hw : w = v
    · subst hw
      rw [Function.update_self]
      exact hgone h
    · rw [Function.update_of_ne hw]
      exact h

end Registry

end Axivc

import Axivc.Lib.Prog
import Axivc.Slot
import Mathlib.Logic.Function.Basic

/-!
# Axivc.Ring

The directional ring of `ring.c`: its shared memory, the three operations as
programs over single memory accesses, and what each of them computes when
nothing interferes.

The slot copies go byte by byte, in the order of the addresses, so that a
peer can run between any two bytes; the cursors are free-running `u32`s.
Interleavings of these programs are the subject of `Axivc.RingFifo`.
-/

namespace Axivc

open Prog

/-- `struct axivc_ring`, less its reserved words. -/
structure Ring where
  direction : UInt32
  capacity : UInt32
  slotSize : UInt32
  head : UInt32
  tail : UInt32
  slots : Fin ringCapacity → Slot

/-- One access to the memory of a ring. -/
inductive RingAccess where
  | loadDirection
  | loadCapacity
  | loadSlotSize
  | storeDirection (v : UInt32)
  | storeCapacity (v : UInt32)
  | storeSlotSize (v : UInt32)
  | loadHead
  | storeHead (v : UInt32)
  | loadTail
  | storeTail (v : UInt32)
  | loadByte (i : Fin ringCapacity) (j : Fin slotSize)
  | storeByte (i : Fin ringCapacity) (j : Fin slotSize) (b : UInt8)
  deriving DecidableEq

/-- The interface of the ring's memory. -/
@[reducible] def ringMemory : Iface where
  Op := RingAccess
  Res
    | .loadDirection | .loadCapacity | .loadSlotSize | .loadHead | .loadTail => UInt32
    | .loadByte _ _ => UInt8
    | _ => Unit

/-- What an access does to the memory. -/
def access : (a : RingAccess) → Ring → ringMemory.Res a × Ring
  | .loadDirection, m => (m.direction, m)
  | .loadCapacity, m => (m.capacity, m)
  | .loadSlotSize, m => (m.slotSize, m)
  | .storeDirection v, m => ((), { m with direction := v })
  | .storeCapacity v, m => ((), { m with capacity := v })
  | .storeSlotSize v, m => ((), { m with slotSize := v })
  | .loadHead, m => (m.head, m)
  | .storeHead v, m => ((), { m with head := v })
  | .loadTail, m => (m.tail, m)
  | .storeTail v, m => ((), { m with tail := v })
  | .loadByte i j, m => ((m.slots i).get j, m)
  | .storeByte i j b, m => ((), { m with slots := Function.update m.slots i ((m.slots i).set j b) })

/-- One access as a program. -/
abbrev mem (a : RingAccess) : Prog ringMemory (ringMemory.Res a) := op (I := ringMemory) a

/-! ## the operations -/

/-- `cursor % AXIVC_RING_CAPACITY` -/
def slotIndex (cursor : UInt32) : Fin ringCapacity :=
  ⟨cursor.toNat % ringCapacity, Nat.mod_lt _ (by decide)⟩

/-- `memcpy(ring->slots[i], slot, ..)`, restricted to the offsets `js`. -/
def storeBytes (i : Fin ringCapacity) (slot : Slot) : List (Fin slotSize) → Prog ringMemory Unit
  | [] => .ret ()
  | j :: js => .act (.storeByte i j (slot.get j)) fun _ => storeBytes i slot js

/-- `memcpy(slot, ring->slots[i], ..)`, restricted to the offsets `js`. -/
def loadBytes (i : Fin ringCapacity) (slot : Slot) : List (Fin slotSize) → Prog ringMemory Slot
  | [] => .ret slot
  | j :: js => .act (.loadByte i j) fun b => loadBytes i (slot.set j b) js

/-- `memset(ring->slots, 0, ..)`, restricted to the slots `is`. -/
def clearSlots : List (Fin ringCapacity) → Prog ringMemory Unit
  | [] => .ret ()
  | i :: is => storeBytes i Slot.zero (List.finRange _) >>= fun _ => clearSlots is

/-- `axivc_ring_initialize` -/
def ringInitialize (direction : UInt32) : Prog ringMemory Unit := do
  mem (.storeDirection direction)
  mem (.storeCapacity (.ofNat ringCapacity))
  mem (.storeSlotSize (.ofNat slotSize))
  mem (.storeHead 0)
  clearSlots (List.finRange _)
  -- Publishing tail last lets a peer that observes an empty ring trust the
  -- layout fields above.
  mem (.storeTail 0)

/-- `axivc_ring_try_push_slot` -/
def ringTryPushSlot (slot : Slot) : Prog ringMemory Bool := do
  let tail : UInt32 ← mem .loadTail
  let head : UInt32 ← mem .loadHead
  if tail - head ≥ .ofNat ringCapacity then
    pure false
  else
    storeBytes (slotIndex tail) slot (List.finRange _)
    mem (.storeTail (tail + 1))
    pure true

/-- `axivc_ring_try_peek_slot`; the caller's buffer starts out with arbitrary
bytes, here zero. -/
def ringTryPeekSlot : Prog ringMemory (Option Slot) := do
  let head : UInt32 ← mem .loadHead
  let tail : UInt32 ← mem .loadTail
  if head = tail then
    pure none
  else
    let slot ← loadBytes (slotIndex head) Slot.zero (List.finRange _)
    pure (some slot)

/-- `axivc_ring_pop_slot` -/
def ringPopSlot : Prog ringMemory Unit := do
  let head : UInt32 ← mem .loadHead
  mem (.storeHead (head + 1))

/-! ## the ring as its users see it -/

/-- The three operations the message layer uses. -/
inductive RingOp where
  | push (slot : Slot)
  | peek
  | pop
  deriving DecidableEq

/-- The interface of a ring. -/
@[reducible] def ringIface : Iface where
  Op := RingOp
  Res
    | .push _ => Bool
    | .peek => Option Slot
    | .pop => Unit

/-- The ring a sender or receiver points to, as programs for its operations
over some interface. -/
abbrev RingImpl (I : Iface) : Type := (o : RingOp) → Prog I (ringIface.Res o)

/-- The ring of `ring.c`. -/
def ringProgram : RingImpl ringMemory
  | .push slot => ringTryPushSlot slot
  | .peek => ringTryPeekSlot
  | .pop => ringPopSlot

/-- What each operation computes when nothing interferes. -/
def ringStep : (o : RingOp) → Ring → ringIface.Res o × Ring
  | .push slot, m =>
      if m.tail - m.head ≥ .ofNat ringCapacity then (false, m)
      else (true, { m with slots := Function.update m.slots (slotIndex m.tail) slot, tail := m.tail + 1 })
  | .peek, m => (if m.head = m.tail then none else some (m.slots (slotIndex m.head)), m)
  | .pop, m => ((), { m with head := m.head + 1 })

/-! ## running alone -/

/-- Storing the bytes `js` of a slot changes those bytes only. -/
theorem run_storeBytes (i : Fin ringCapacity) (slot : Slot) (js : List (Fin slotSize)) (m : Ring) :
    ∃ s : Slot, (storeBytes i slot js).run access m =
        some ((), { m with slots := Function.update m.slots i s }) ∧
      (∀ j ∈ js, s.get j = slot.get j) ∧ ∀ j, j ∉ js → s.get j = (m.slots i).get j := by
  induction js generalizing m with
  | nil => exact ⟨m.slots i, by simp [storeBytes, Function.update_eq_self], by simp, by simp⟩
  | cons j js ih =>
      obtain ⟨s, hrun, hmem, hget⟩ := ih (access (.storeByte i j (slot.get j)) m).2
      refine ⟨s, ?_, fun j' hj' => ?_, fun j' hj' => ?_⟩
      · rw [storeBytes, run_act, hrun]
        simp [access]
      · by_cases hin : j' ∈ js
        · exact hmem j' hin
        · have heq : j' = j := by simpa [hin] using hj'
          rw [hget j' hin, heq]
          simp [access]
      · rw [List.mem_cons, not_or] at hj'
        rw [hget j' hj'.2]
        simp [access, hj'.1]

/-- Copying a whole slot in leaves exactly that slot. -/
theorem run_storeBytes_all (i : Fin ringCapacity) (slot : Slot) (m : Ring) :
    (storeBytes i slot (List.finRange _)).run access m =
      some ((), { m with slots := Function.update m.slots i slot }) := by
  obtain ⟨s, hrun, hmem, -⟩ := run_storeBytes i slot (List.finRange _) m
  have hs : s = slot := Slot.ext fun j => hmem j (List.mem_finRange j)
  rw [hrun, hs]

/-- Copying the bytes `js` of a slot out. -/
theorem run_loadBytes (i : Fin ringCapacity) (slot : Slot) (js : List (Fin slotSize)) (m : Ring) :
    ∃ s : Slot, (loadBytes i slot js).run access m = some (s, m) ∧
      (∀ j ∈ js, s.get j = (m.slots i).get j) ∧ ∀ j, j ∉ js → s.get j = slot.get j := by
  induction js generalizing slot with
  | nil => exact ⟨slot, rfl, by simp, by simp⟩
  | cons j js ih =>
      obtain ⟨s, hrun, hmem, hget⟩ := ih (slot.set j ((m.slots i).get j))
      refine ⟨s, by rw [loadBytes, run_act]; exact hrun, fun j' hj' => ?_, fun j' hj' => ?_⟩
      · by_cases hin : j' ∈ js
        · exact hmem j' hin
        · have heq : j' = j := by simpa [hin] using hj'
          rw [hget j' hin, heq, Slot.get_set_self]
      · rw [List.mem_cons, not_or] at hj'
        rw [hget j' hj'.2, Slot.get_set_of_ne _ _ hj'.1]

/-- Copying a whole slot out yields exactly that slot. -/
theorem run_loadBytes_all (i : Fin ringCapacity) (slot : Slot) (m : Ring) :
    (loadBytes i slot (List.finRange _)).run access m = some (m.slots i, m) := by
  obtain ⟨s, hrun, hmem, -⟩ := run_loadBytes i slot (List.finRange _) m
  have hs : s = m.slots i := Slot.ext fun j => hmem j (List.mem_finRange j)
  rw [hrun, hs]

/-- Clearing the slots `is` changes those slots only. -/
theorem run_clearSlots (is : List (Fin ringCapacity)) (m : Ring) :
    ∃ slots, (clearSlots is).run access m = some ((), { m with slots := slots }) ∧
      (∀ i ∈ is, slots i = Slot.zero) ∧ ∀ i, i ∉ is → slots i = m.slots i := by
  induction is generalizing m with
  | nil => exact ⟨m.slots, rfl, by simp, by simp⟩
  | cons i is ih =>
      obtain ⟨slots, hrun, hmem, hget⟩ := ih { m with slots := Function.update m.slots i Slot.zero }
      refine ⟨slots, ?_, fun i' hi' => ?_, fun i' hi' => ?_⟩
      · rw [clearSlots, run_bind, run_storeBytes_all, Option.bind_some, hrun]
      · by_cases hin : i' ∈ is
        · exact hmem i' hin
        · have heq : i' = i := by simpa [hin] using hi'
          rw [hget i' hin, heq]
          exact Function.update_self ..
      · rw [List.mem_cons, not_or] at hi'
        rw [hget i' hi'.2]
        exact Function.update_of_ne hi'.1 ..

/-- Clearing all slots. -/
theorem run_clearSlots_all (m : Ring) : (clearSlots (List.finRange _)).run access m =
    some ((), { m with slots := fun _ => Slot.zero }) := by
  obtain ⟨slots, hrun, hmem, -⟩ := run_clearSlots (List.finRange _) m
  have hslots : slots = fun _ => Slot.zero := funext fun i => hmem i (List.mem_finRange i)
  rw [hrun, hslots]

/-- A ring just initialised: empty, cleared, with its own direction. -/
def Ring.initial (direction : UInt32) : Ring where
  direction := direction
  capacity := .ofNat ringCapacity
  slotSize := .ofNat Axivc.slotSize
  head := 0
  tail := 0
  slots := fun _ => Slot.zero

/-- The layout fields and the head are stored before the slots are cleared. -/
theorem run_storeLayout (direction capacity size : UInt32) (p : Prog ringMemory Unit) (m : Ring) :
    (do
      mem (.storeDirection direction)
      mem (.storeCapacity capacity)
      mem (.storeSlotSize size)
      mem (.storeHead 0)
      p : Prog ringMemory Unit).run access m =
    p.run access ⟨direction, capacity, size, 0, m.tail, m.slots⟩ := rfl

/-- Initialising overwrites whatever the memory held. -/
theorem run_ringInitialize (direction : UInt32) (m : Ring) :
    (ringInitialize direction).run access m = some ((), Ring.initial direction) := by
  rw [ringInitialize, run_storeLayout, run_bind, run_clearSlots_all, Option.bind_some]
  simp [access, Ring.initial]

/-- Alone, the programs compute `ringStep`. -/
theorem run_ringProgram (o : RingOp) (m : Ring) :
    (ringProgram o).run access m = some (ringStep o m) := by
  cases o with
  | push slot =>
      change (ite (m.tail - m.head ≥ .ofNat ringCapacity) (.ret false)
        (storeBytes (slotIndex m.tail) slot (List.finRange _) >>= fun _ =>
          mem (.storeTail (m.tail + 1)) >>= fun _ => .ret true)).run access m = _
      by_cases hfull : m.tail - m.head ≥ .ofNat ringCapacity
      · rw [if_pos hfull, ringStep, if_pos hfull, run_ret]
      · rw [if_neg hfull, run_bind, run_storeBytes_all, ringStep, if_neg hfull]
        rfl
  | peek =>
      change (ite (m.head = m.tail) (.ret none)
        (loadBytes (slotIndex m.head) Slot.zero (List.finRange _) >>= fun slot =>
          .ret (some slot))).run access m = _
      by_cases hempty : m.head = m.tail
      · rw [if_pos hempty, ringStep, if_pos hempty, run_ret]
      · rw [if_neg hempty, run_bind, run_loadBytes_all, ringStep, if_neg hempty]
        rfl
  | pop => rfl

/-- The operations always return. -/
theorem ringProgram_returns (o : RingOp) : (ringProgram o).Returns := by
  have hstore (i : Fin ringCapacity) (slot : Slot) (js : List (Fin slotSize)) :
      (storeBytes i slot js).Returns := by
    induction js with
    | nil => trivial
    | cons j js ih => exact fun _ => ih
  have hload (i : Fin ringCapacity) (slot : Slot) (js : List (Fin slotSize)) :
      (loadBytes i slot js).Returns := by
    induction js generalizing slot with
    | nil => trivial
    | cons j js ih => exact fun _ => ih _
  cases o with
  | push slot =>
      intro tail head
      change (ite (tail - head ≥ .ofNat ringCapacity) (.ret false)
        (storeBytes (slotIndex tail) slot (List.finRange _) >>= fun _ =>
          mem (.storeTail (tail + 1)) >>= fun _ => .ret true)).Returns
      split
      · trivial
      · exact (hstore ..).bind fun _ _ => trivial
  | peek =>
      intro head tail
      change (ite (head = tail) (.ret none)
        (loadBytes (slotIndex head) Slot.zero (List.finRange _) >>= fun slot => .ret (some slot))).Returns
      split
      · trivial
      · exact (hload ..).bind fun _ => trivial
  | pop => exact fun _ _ => trivial

end Axivc

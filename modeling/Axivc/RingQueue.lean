import Axivc.Lib.Cursor
import Axivc.Ring

/-!
# Axivc.RingQueue

The ring memory as a bounded queue.

`Ring.Holds m n q` says that the memory `m` represents the queue `q` after
`n` slots have left it: the cursors are the true counts `n` and
`n + q.length` wrapped to 32 bits, at most 32 slots are outstanding, and the
slot of the `j`-th of them sits at index `(n + j) % 32`.  The three updates
the operations make are given as lemmas on `Holds`, so neither the sessions
that run whole calls nor the interleavings of single accesses ever compute
with cursors again.
-/

namespace Axivc

namespace Ring

/-- The index at which the `n`-th slot ever pushed is stored. -/
def indexOf (n : Nat) : Fin ringCapacity := ⟨n % ringCapacity, Nat.mod_lt _ (by decide)⟩

/-- The memory `m` represents the queue `q`, from which `n` slots have been
popped so far. -/
structure Holds (m : Ring) (n : Nat) (q : List Slot) : Prop where
  head_eq : m.head = UInt32.ofNat n
  tail_eq : m.tail = UInt32.ofNat (n + q.length)
  length_le : q.length ≤ ringCapacity
  slots_eq : ∀ j (hj : j < q.length), m.slots (indexOf (n + j)) = q[j]

theorem slotIndex_ofNat (n : Nat) : slotIndex (UInt32.ofNat n) = indexOf n := by
  simp only [slotIndex, indexOf, Fin.mk.injEq]
  exact Cursor.toNat_ofNat_mod (by decide)

/-- Slots of outstanding positions are stored at different indices. -/
theorem indexOf_ne {n m : Nat} (hlt : n < m) (hle : m - n < ringCapacity) :
    indexOf n ≠ indexOf m := by
  intro h
  have hmod : n % ringCapacity = m % ringCapacity := congrArg Fin.val h
  have h32 : ringCapacity = 32 := rfl
  rw [h32] at hmod hle
  omega

variable {m : Ring} {n : Nat} {q : List Slot}

theorem initial_holds (direction : UInt32) : (Ring.initial direction).Holds 0 [] :=
  ⟨rfl, rfl, Nat.zero_le _, by simp⟩

/-- The wrapped cursor distance is the number of outstanding slots. -/
theorem Holds.distance (h : m.Holds n q) : (m.tail - m.head).toNat = q.length := by
  have hle := h.length_le
  have h32 : ringCapacity = 32 := rfl
  rw [h.head_eq, h.tail_eq, Cursor.toNat_ofNat_sub (by omega) (by omega)]
  omega

/-- The producer finds the ring full exactly when 32 slots are outstanding. -/
theorem Holds.full_iff (h : m.Holds n q) :
    m.tail - m.head ≥ .ofNat ringCapacity ↔ q.length = ringCapacity := by
  have hle := h.length_le
  rw [ge_iff_le, UInt32.le_iff_toNat_le, h.distance, UInt32.toNat_ofNat']
  have h32 : ringCapacity = 32 := rfl
  omega

/-- The consumer finds the ring empty exactly when nothing is outstanding. -/
theorem Holds.empty_iff (h : m.Holds n q) : m.head = m.tail ↔ q = [] := by
  have hle := h.length_le
  have h32 : ringCapacity = 32 := rfl
  rw [h.head_eq, h.tail_eq, Cursor.ofNat_eq_iff (by omega) (by omega), ← List.length_eq_zero_iff]
  omega

/-- The slot at the head cursor is the oldest one. -/
theorem Holds.front (h : m.Holds n q) {x : Slot} {q' : List Slot} (hq : q = x :: q') :
    m.slots (slotIndex m.head) = x := by
  subst hq
  rw [h.head_eq, slotIndex_ofNat]
  exact h.slots_eq 0 (by simp)

/-- Writing to the free slot at the tail cursor does not show in the queue. -/
theorem Holds.write (h : m.Holds n q) (hroom : q.length < ringCapacity) (s : Slot) :
    ({ m with slots := Function.update m.slots (indexOf (n + q.length)) s } : Ring).Holds n q := by
  refine ⟨h.head_eq, h.tail_eq, h.length_le, fun j hj => ?_⟩
  have hne : indexOf (n + j) ≠ indexOf (n + q.length) := indexOf_ne (by omega) (by omega)
  simp only [Function.update_of_ne hne]
  exact h.slots_eq j hj

/-- Publishing the slot at the tail cursor appends it. -/
theorem Holds.publish (h : m.Holds n q) (hroom : q.length < ringCapacity) {s : Slot}
    (hs : m.slots (indexOf (n + q.length)) = s) :
    ({ m with tail := m.tail + 1 } : Ring).Holds n (q ++ [s]) := by
  refine ⟨h.head_eq, ?_, ?_, fun j hj => ?_⟩
  · simp only [h.tail_eq, Cursor.ofNat_succ, List.length_append, List.length_singleton, Nat.add_assoc]
  · simp only [List.length_append, List.length_singleton]
    omega
  · by_cases hlt : j < q.length
    · rw [List.getElem_append_left hlt]
      exact h.slots_eq j hlt
    · have hj' : j = q.length := by
        simp only [List.length_append, List.length_singleton] at hj
        omega
      subst hj'
      simp [hs]

/-- Moving the head cursor on removes the oldest slot. -/
theorem Holds.advance (h : m.Holds n q) {x : Slot} {q' : List Slot} (hq : q = x :: q') :
    ({ m with head := m.head + 1 } : Ring).Holds (n + 1) q' := by
  subst hq
  have hlen := h.length_le
  simp only [List.length_cons] at hlen
  refine ⟨by simp only [h.head_eq, Cursor.ofNat_succ], ?_, by omega, fun j hj => ?_⟩
  · have htail := h.tail_eq
    rw [List.length_cons] at htail
    simp only [htail]
    congr 1
    omega
  · have hslot := h.slots_eq (j + 1) (by simpa using hj)
    rw [List.getElem_cons_succ] at hslot
    have hidx : n + 1 + j = n + (j + 1) := by omega
    rw [hidx]
    exact hslot

/-! ## the operations on a queue -/

/-- A push on a full ring changes nothing. -/
theorem Holds.step_push_full (h : m.Holds n q) (hfull : q.length = ringCapacity) (s : Slot) :
    ringStep (.push s) m = (false, m) := by
  rw [ringStep, if_pos (h.full_iff.mpr hfull)]

/-- A push on a ring with room appends the slot. -/
theorem Holds.step_push (h : m.Holds n q) (hroom : q.length < ringCapacity) (s : Slot) :
    ∃ m', ringStep (.push s) m = (true, m') ∧ m'.Holds n (q ++ [s]) := by
  have hnf : ¬ m.tail - m.head ≥ .ofNat ringCapacity := by
    rw [h.full_iff]
    omega
  refine ⟨_, by rw [ringStep, if_neg hnf], ?_⟩
  have hidx : slotIndex m.tail = indexOf (n + q.length) := by rw [h.tail_eq, slotIndex_ofNat]
  rw [hidx]
  exact (h.write hroom s).publish hroom (Function.update_self ..)

/-- A peek returns the oldest slot and changes nothing. -/
theorem Holds.step_peek (h : m.Holds n q) : ringStep .peek m = (q.head?, m) := by
  cases hq : q with
  | nil => rw [ringStep, if_pos (h.empty_iff.mpr hq)]; rfl
  | cons x q' =>
      have hne : ¬ m.head = m.tail := by
        rw [h.empty_iff, hq]
        simp
      rw [ringStep, if_neg hne, h.front hq]
      rfl

/-- A pop removes the oldest slot. -/
theorem Holds.step_pop {x : Slot} (h : m.Holds n (x :: q)) :
    ∃ m', ringStep .pop m = ((), m') ∧ m'.Holds (n + 1) q :=
  ⟨_, rfl, h.advance rfl⟩

end Ring

end Axivc

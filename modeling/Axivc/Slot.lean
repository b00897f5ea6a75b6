import Mathlib.Data.List.Basic

/-!
# Axivc.Slot

The error codes of the driver and the 256-byte ring slot.

A slot carries the proof of its size, so every byte access below is in
bounds by construction; two slots are equal when their bytes are.
-/

namespace Axivc

/-- The error codes the driver returns (as negative `int`s in the source). -/
inductive Errno where
  | EAGAIN
  | EBUSY
  | ECONNRESET
  | EFAULT
  | EINTR
  | EINVAL
  | EIO
  | EMSGSIZE
  | ENODEV
  | ENOENT
  | ENOMEM
  | ENOMSG
  | ENOSPC
  | EOPNOTSUPP
  | EOVERFLOW
  | EPIPE
  | EPROTO
  | EPROTONOSUPPORT
  | ERESTARTSYS
  | ETIMEDOUT
  deriving DecidableEq, Repr

/-- `AXIVC_SLOT_SIZE` -/
def slotSize : Nat := 256

/-- `AXIVC_RING_CAPACITY` -/
def ringCapacity : Nat := 32

/-- One ring slot, `u8 slot[AXIVC_SLOT_SIZE]`. -/
structure Slot where
  bytes : List UInt8
  size_eq : bytes.length = slotSize
  deriving DecidableEq

namespace Slot

/-- The slot `memset` to zero. -/
def zero : Slot := ⟨List.replicate slotSize 0, List.length_replicate⟩

/-- The byte at offset `j`. -/
def get (s : Slot) (j : Fin slotSize) : UInt8 := s.bytes.get ⟨j, by rw [s.size_eq]; exact j.isLt⟩

/-- The slot with the byte at offset `j` replaced. -/
def set (s : Slot) (j : Fin slotSize) (b : UInt8) : Slot :=
  ⟨s.bytes.set j b, by rw [List.length_set, s.size_eq]⟩

@[ext] theorem ext {s t : Slot} (h : ∀ j, s.get j = t.get j) : s = t := by
  obtain ⟨bs, hs⟩ := s
  obtain ⟨bt, ht⟩ := t
  have hb : bs = bt := by
    apply List.ext_getElem (by rw [hs, ht])
    intro n h1 h2
    exact h ⟨n, hs ▸ h1⟩
  subst hb
  rfl

@[simp] theorem get_set_self (s : Slot) (j : Fin slotSize) (b : UInt8) : (s.set j b).get j = b := by
  simp [get, set]

@[simp] theorem get_set_of_ne (s : Slot) {j j' : Fin slotSize} (b : UInt8) (h : j' ≠ j) :
    (s.set j b).get j' = s.get j' := by
  simp [get, set, List.getElem_set_of_ne (fun h' => h (Fin.ext h'.symm))]

end Slot

end Axivc

import Mathlib.Algebra.Group.Nat.Defs

/-!
# Axivc.Lib.Cursor

Free-running `u32` cursors.

A queue that counts its operations in 32 bits sees a count `n` only as
`UInt32.ofNat n`.  The wrapped difference of two counts is their true
distance as long as that distance fits 32 bits, and a remainder by a divisor
of `2 ^ 32` is the remainder of the true count; both hold across any number
of wrap-arounds.
-/

namespace Cursor

theorem ofNat_succ (n : Nat) : UInt32.ofNat n + 1 = UInt32.ofNat (n + 1) := by
  rw [UInt32.ofNat_add]
  rfl

/-- The wrapped difference is the true distance. -/
theorem toNat_ofNat_sub {a b : Nat} (hle : b ≤ a) (hlt : a - b < 2 ^ 32) :
    (UInt32.ofNat a - UInt32.ofNat b).toNat = a - b := by
  rw [UInt32.toNat_sub, UInt32.toNat_ofNat', UInt32.toNat_ofNat']
  omega

/-- Two cursors at a distance below `2 ^ 32` agree only when their counts do. -/
theorem ofNat_eq_iff {a b : Nat} (hle : b ≤ a) (hlt : a - b < 2 ^ 32) :
    UInt32.ofNat b = UInt32.ofNat a ↔ b = a := by
  constructor
  · intro h
    have hsub := toNat_ofNat_sub hle hlt
    rw [h, UInt32.sub_self] at hsub
    have hz : (0 : UInt32).toNat = 0 := rfl
    omega
  · rintro rfl
    rfl

/-- Remainders by a divisor of `2 ^ 32` survive the wrap-around. -/
theorem toNat_ofNat_mod {n k : Nat} (hk : k ∣ 2 ^ 32) : (UInt32.ofNat n).toNat % k = n % k := by
  rw [UInt32.toNat_ofNat', Nat.mod_mod_of_dvd n hk]

end Cursor

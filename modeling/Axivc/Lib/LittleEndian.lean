import Mathlib.Data.List.Basic
import Mathlib.Tactic.Ring

/-!
# Axivc.Lib.LittleEndian

Little-endian byte strings as numbers.

`leValue` and `leBytes` are inverse on a fixed width; the two bit-level facts
at the end turn the shift-and-mask code that reads and writes such fields
into this arithmetic.
-/

namespace LittleEndian

/-- The number a byte string denotes, lowest byte first. -/
def leValue : List UInt8 → Nat
  | [] => 0
  | b :: bs => b.toNat + 256 * leValue bs

/-- The `w` lowest bytes of a number, lowest first. -/
def leBytes : Nat → Nat → List UInt8
  | 0, _ => []
  | w + 1, n => UInt8.ofNat n :: leBytes w (n / 256)

@[simp] theorem length_leBytes (w n : Nat) : (leBytes w n).length = w := by
  induction w generalizing n with
  | zero => rfl
  | succ w ih => rw [leBytes, List.length_cons, ih]

theorem leValue_append (xs ys : List UInt8) :
    leValue (xs ++ ys) = leValue xs + 256 ^ xs.length * leValue ys := by
  induction xs with
  | nil => simp [leValue]
  | cons x xs ih =>
      rw [List.cons_append, leValue, leValue, ih, List.length_cons, Nat.pow_succ]
      ring

/-- Writing and reading back keeps the value modulo the width. -/
theorem leValue_leBytes (w n : Nat) : leValue (leBytes w n) = n % 256 ^ w := by
  induction w generalizing n with
  | zero => simp [leBytes, leValue, Nat.mod_one]
  | succ w ih =>
      have hpow : 256 ^ (w + 1) = 256 * 256 ^ w := by rw [Nat.pow_succ, Nat.mul_comm]
      rw [leBytes, leValue, ih, UInt8.toNat_ofNat', hpow, Nat.mod_mul]

/-- Reading and writing back keeps the bytes. -/
theorem leBytes_leValue (bs : List UInt8) : leBytes bs.length (leValue bs) = bs := by
  induction bs with
  | nil => rfl
  | cons b bs ih =>
      have hb := b.toNat_lt
      have hdiv : (b.toNat + 256 * leValue bs) / 256 = leValue bs := by omega
      have hmod : UInt8.ofNat (b.toNat + 256 * leValue bs) = b := by
        apply UInt8.toNat_inj.mp
        rw [UInt8.toNat_ofNat']
        omega
      rw [List.length_cons, leBytes, leValue, hdiv, ih, hmod]

/-- A byte string denotes a number of its width. -/
theorem leValue_lt (bs : List UInt8) : leValue bs < 256 ^ bs.length := by
  induction bs with
  | nil => simp [leValue]
  | cons b bs ih =>
      have hb := b.toNat_lt
      rw [leValue, List.length_cons, Nat.pow_succ]
      omega

/-! ## byte by byte -/

/-- The bytes of a number, each on its own. -/
theorem leBytes_eq_map (w n : Nat) : leBytes w n = (List.range w).map fun i => UInt8.ofNat (n / 256 ^ i) := by
  induction w generalizing n with
  | zero => rfl
  | succ w ih =>
      rw [leBytes, ih, List.range_succ_eq_map, List.map_cons, List.map_map]
      congr 1
      · simp
      · apply List.map_congr_left
        intro i _
        simp [Nat.div_div_eq_div_mul, Nat.pow_succ, Nat.mul_comm]

/-- One more byte at the high end. -/
theorem leValue_take_succ {bs : List UInt8} {i : Nat} (h : i < bs.length) :
    leValue (bs.take (i + 1)) = leValue (bs.take i) + (bs.getD i 0).toNat * 256 ^ i := by
  rw [List.take_succ_eq_append_getElem h, leValue_append, List.length_take_of_le (by omega)]
  simp [leValue, h, Nat.mul_comm]

/-! ## shifts and masks -/

/-- Or-ing in a value shifted past the bits in use adds it. -/
theorem or_shiftLeft {x k : Nat} (h : x < 2 ^ k) (y : Nat) : x ||| y <<< k = x + y * 2 ^ k := by
  rw [Nat.or_comm, ← Nat.shiftLeft_add_eq_or_of_lt h, Nat.shiftLeft_eq, Nat.add_comm]

/-- Masking a byte keeps it. -/
@[simp] theorem mod_and_mask (n : Nat) : n % 256 &&& 255 = n % 256 := by
  rw [show (255 : Nat) = 2 ^ 8 - 1 from rfl, Nat.and_two_pow_sub_one_eq_mod]
  omega

end LittleEndian

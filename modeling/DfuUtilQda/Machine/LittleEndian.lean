import Mathlib.Algebra.Ring.Nat
import Mathlib.Data.List.Basic
import Mathlib.Data.Nat.Basic

/-! Integers as little-endian byte strings. -/

namespace DfuUtilQda.Machine

/-- The number whose bytes these are, the least significant first. -/
def leNat : List UInt8 → Nat
  | [] => 0
  | byte :: bytes => byte.toNat + 256 * leNat bytes

/-- The low `count` bytes of `value`. -/
def leBytes : Nat → Nat → List UInt8
  | 0, _ => []
  | count + 1, value => UInt8.ofNat value :: leBytes count (value / 256)

/-- The integer of `count` bytes that stands at `offset`. -/
def leAt (bytes : List UInt8) (offset count : Nat) : Nat := leNat ((bytes.drop offset).take count)

@[simp] theorem leBytes_length (count value : Nat) : (leBytes count value).length = count := by
  induction count generalizing value with
  | zero => rfl
  | succ count ih => simp [leBytes, ih]

theorem leNat_lt (bytes : List UInt8) : leNat bytes < 256 ^ bytes.length := by
  induction bytes with
  | nil => exact Nat.one_pos
  | cons byte bytes ih =>
    have digit := byte.toNat_lt
    simp only [leNat, List.length_cons, Nat.pow_succ]
    omega

theorem leNat_leBytes (count value : Nat) : leNat (leBytes count value) = value % 256 ^ count := by
  induction count generalizing value with
  | zero => simp [leBytes, leNat, Nat.mod_one]
  | succ count ih =>
    have larger : 256 ^ (count + 1) = 256 * 256 ^ count := Nat.pow_succ'
    rw [leBytes, leNat, ih, UInt8.toNat_ofNat', larger, Nat.mod_mul]

theorem leNat_leBytes_of_lt {count value : Nat} (fits : value < 256 ^ count) : leNat (leBytes count value) = value := by
  rw [leNat_leBytes, Nat.mod_eq_of_lt fits]

theorem leAt_append (front bytes rest : List UInt8) (count : Nat) (exact_ : bytes.length = count) :
    leAt (front ++ (bytes ++ rest)) front.length count = leNat bytes := by
  rw [leAt, List.drop_left, ← exact_, List.take_left]

theorem leAt_left (front rest : List UInt8) (offset count : Nat) (inside : offset + count ≤ front.length) :
    leAt (front ++ rest) offset count = leAt front offset count := by
  rw [leAt, leAt, List.drop_append_of_le_length (by omega), List.take_append_of_le_length (by simp; omega)]

theorem leAt_lt (bytes : List UInt8) (offset count : Nat) : leAt bytes offset count < 256 ^ count := by
  refine Nat.lt_of_lt_of_le (leNat_lt _) (Nat.pow_le_pow_right (by omega) ?_)
  simp only [List.length_take]
  omega

end DfuUtilQda.Machine

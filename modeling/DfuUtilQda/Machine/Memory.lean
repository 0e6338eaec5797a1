import Mathlib.Algebra.Ring.Int.Defs
import Mathlib.Algebra.Ring.Nat
import Mathlib.Data.List.Basic

/-! Byte buffers and the C conversions between integer types. A copy that does
not fit its destination has no result; signed values wrap in two's complement. -/

namespace DfuUtilQda.Machine

variable {α : Type}

/-- `dst` with the bytes from `offset` on replaced by `src`, as far as `dst` reaches. -/
def patch (dst : List α) (offset : Nat) (src : List α) : List α :=
  match dst, offset, src with
  | dst, _, [] => dst
  | [], _, _ => []
  | _ :: dst, 0, byte :: src => byte :: patch dst 0 src
  | byte :: dst, offset + 1, src => byte :: patch dst offset src

@[simp] theorem patch_length (dst : List α) (offset : Nat) (src : List α) : (patch dst offset src).length = dst.length := by
  fun_induction patch with
  | case1 => rfl
  | case2 => rfl
  | case3 _ _ _ _ ih => simp [ih]
  | case4 _ _ _ _ _ ih => simp [ih]

@[simp] theorem patch_nil (dst : List α) (offset : Nat) : patch dst offset [] = dst := by
  unfold patch
  rfl

theorem patch_append (front dst src : List α) : patch (front ++ dst) front.length src = front ++ patch dst 0 src := by
  induction front with
  | nil => rfl
  | cons byte front ih =>
    cases src with
    | nil => simp
    | cons => simp only [List.cons_append, List.length_cons, patch, ih]

theorem patch_zero (dst src : List α) (fits : src.length ≤ dst.length) : patch dst 0 src = src ++ dst.drop src.length := by
  induction src generalizing dst with
  | nil => simp
  | cons byte src ih =>
    cases dst with
    | nil => simp at fits
    | cons _ dst => simp only [patch, ih dst (by simpa using fits), List.cons_append, List.length_cons, List.drop_succ_cons]

theorem patch_within (dst tail src : List α) (fits : src.length ≤ dst.length) :
    patch (dst ++ tail) 0 src = patch dst 0 src ++ tail := by
  have whole : src.length ≤ (dst ++ tail).length := by simp; omega
  rw [patch_zero _ _ whole, patch_zero _ _ fits, List.drop_append_of_le_length fits, List.append_assoc]

theorem patch_eq (dst src : List α) (offset : Nat) (fits : offset + src.length ≤ dst.length) :
    patch dst offset src = dst.take offset ++ src ++ dst.drop (offset + src.length) := by
  have front : (dst.take offset).length = offset := by simp; omega
  calc patch dst offset src
      = patch (dst.take offset ++ dst.drop offset) (dst.take offset).length src := by rw [List.take_append_drop, front]
    _ = dst.take offset ++ (src ++ (dst.drop offset).drop src.length) := by
        rw [patch_append, patch_zero _ _ (by simp; omega)]
    _ = _ := by rw [List.drop_drop, List.append_assoc]

/-- Storing a byte and then the bytes after it stores them all. -/
theorem patch_patch (dst : List α) (offset : Nat) (byte : α) (src : List α) :
    patch (patch dst offset [byte]) (offset + 1) src = patch dst offset (byte :: src) := by
  induction dst generalizing offset with
  | nil => cases src <;> simp [patch]
  | cons first dst ih =>
    cases offset with
    | zero => cases src <;> simp [patch]
    | succ offset =>
      have rest := ih offset
      cases src with
      | nil => simp [patch]
      | cons => simp only [patch, rest]

/-- Storing a string and then another one behind it stores both. -/
theorem patch_behind (dst first second : List α) (offset : Nat) :
    patch (patch dst offset first) (offset + first.length) second = patch dst offset (first ++ second) := by
  induction first generalizing dst offset with
  | nil => rw [patch_nil, List.nil_append, List.length_nil, Nat.add_zero]
  | cons byte first ih =>
    rw [← patch_patch, List.cons_append, ← patch_patch dst offset byte (first ++ second), ← ih, List.length_cons,
      Nat.add_assoc, Nat.add_comm 1]

/-- `memcpy(dst + offset, src, n)`, with no result where it would write outside `dst`. -/
def memcpy (dst : List α) (offset : Int) (src : List α) : Option (List α) :=
  if 0 ≤ offset ∧ offset + src.length ≤ dst.length then some (patch dst offset.toNat src) else none

theorem memcpy_fits (dst : List α) (offset : Int) (src : List α) (fits : 0 ≤ offset ∧ offset + src.length ≤ dst.length) :
    ∃ after, memcpy dst offset src = some after := ⟨_, if_pos fits⟩

theorem memcpy_start {dst after src : List α} (copied : memcpy dst 0 src = some after) : after = patch dst 0 src := by
  unfold memcpy at copied
  split at copied
  next => exact (Option.some.inj copied).symm
  next => cases copied

/-- A pointer: a block of memory and where in it the pointer stands. -/
structure Pointer where
  block : List UInt8
  offset : Int

namespace Pointer

def null : Pointer := ⟨[], 0⟩

def advance (pointer : Pointer) (bytes : Int) : Pointer := ⟨pointer.block, pointer.offset + bytes⟩

/-- The `count` bytes it points to, with no result where some of them lie outside the block. -/
def load (pointer : Pointer) (count : Nat) : Option (List UInt8) :=
  if count = 0 then some []
  else if 0 ≤ pointer.offset ∧ pointer.offset + count ≤ pointer.block.length then
    some ((pointer.block.drop pointer.offset.toNat).take count)
  else none

theorem load_length {pointer : Pointer} {count : Nat} {bytes : List UInt8} (loaded : pointer.load count = some bytes) :
    bytes.length = count := by
  unfold load at loaded
  split at loaded
  next zero =>
    cases loaded
    exact zero.symm
  next =>
    split at loaded
    next inside =>
      cases loaded
      rw [List.length_take, List.length_drop]
      omega
    next => cases loaded

theorem load_bytes {block bytes : List UInt8} {offset count : Nat} (loaded : load ⟨block, offset⟩ count = some bytes) :
    bytes = (block.drop offset).take count := by
  unfold load at loaded
  split at loaded
  next zero =>
    cases loaded
    rw [zero, List.take_zero]
  next =>
    split at loaded
    next =>
      cases loaded
      rw [Int.toNat_natCast]
    next => cases loaded

theorem load_inside (block : List UInt8) (offset count : Nat) (inside : offset + count ≤ block.length) :
    load ⟨block, offset⟩ count = some ((block.drop offset).take count) := by
  unfold load
  split
  next zero => rw [zero, List.take_zero]
  next =>
    have below : (offset : Int) + count ≤ block.length := by omega
    rw [if_pos ⟨Int.natCast_nonneg offset, below⟩, Int.toNat_natCast]

theorem load_outside (block : List UInt8) (offset count : Nat) (some_ : count ≠ 0) (outside : block.length < offset + count) :
    load ⟨block, offset⟩ count = none := by
  have beyond : ¬(0 ≤ (offset : Int) ∧ (offset : Int) + count ≤ block.length) := by omega
  rw [load, if_neg some_, if_neg beyond]

end Pointer

/-- A value as it is stored in an `int`. -/
@[irreducible] def toInt (value : Int) : Int := (value + 2 ^ 31) % 2 ^ 32 - 2 ^ 31

/-- A value as it is stored in a `size_t`. -/
@[irreducible] def toSize (value : Int) : Nat := (value % 2 ^ 64).toNat

theorem toSize_le (length : Nat) : toSize length ≤ length := by
  unfold toSize
  omega

theorem toSize_lt (value : Int) : toSize value < 2 ^ 64 := by
  unfold toSize
  omega

theorem toInt_add (first second : Int) : toInt (toInt first + second) = toInt (first + second) := by
  unfold toInt
  omega

theorem toInt_range (value : Int) : -2 ^ 31 ≤ toInt value ∧ toInt value < 2 ^ 31 := by
  unfold toInt
  omega

theorem toInt_of_range {value : Int} (low : -2 ^ 31 ≤ value) (high : value < 2 ^ 31) : toInt value = value := by
  unfold toInt
  omega

theorem toSize_nat {length : Nat} (fits : length < 2 ^ 64) : toSize length = length := by
  unfold toSize
  omega

theorem toSize_of_range {value : Int} (low : 0 ≤ value) (high : value < 2 ^ 64) : (toSize value : Int) = value := by
  unfold toSize
  omega

/-- A length that 16 bits are enough for. -/
theorem toNat_ofInt {size : Int} (low : 0 ≤ size) (high : size ≤ 65535) : ((UInt16.ofInt size).toNat : Int) = size := by
  rw [UInt16.ofInt, UInt16.toNat_ofNat']
  omega

end DfuUtilQda.Machine

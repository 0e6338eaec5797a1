import Mathlib
import DfuUtilQda.Crc.Directions

/-! What a shift register computes, in the terms of its polynomial. Words and messages are
polynomials over GF(2), and a register that shifts to the left divides with remainder. -/

namespace DfuUtilQda.Crc
open Polynomial

/-- A bit as an element of GF(2). -/
def scalar (bit : Bool) : ZMod 2 := if bit then 1 else 0

/-- The word whose bit number `n` is the coefficient of `X ^ n`. -/
noncomputable def wordPolynomial {w : Nat} (word : BitVec w) : (ZMod 2)[X] :=
  ∑ index ∈ Finset.range w, monomial index (scalar (word.getLsbD index))

/-- The message whose first bit belongs to the highest power. -/
noncomputable def messagePolynomial : List Bool → (ZMod 2)[X]
  | [] => 0
  | bit :: bits => C (scalar bit) * X ^ bits.length + messagePolynomial bits

@[simp] theorem scalar_true : scalar true = 1 := rfl
@[simp] theorem scalar_false : scalar false = 0 := rfl

theorem scalar_xor (first second : Bool) : scalar (xor first second) = scalar first + scalar second := by
  cases first <;> cases second <;> decide

theorem messagePolynomial_append (bits more : List Bool) :
    messagePolynomial (bits ++ more) = messagePolynomial bits * X ^ more.length + messagePolynomial more := by
  induction bits with
  | nil => simp [messagePolynomial]
  | cons bit bits ih =>
    rw [List.cons_append, messagePolynomial, ih, messagePolynomial, List.length_append, pow_add]
    ring

section Words

variable {w : Nat}

theorem wordPolynomial_coeff (word : BitVec w) (index : Nat) :
    (wordPolynomial word).coeff index = scalar (word.getLsbD index) := by
  rw [wordPolynomial, finsetSum_coeff]
  simp only [coeff_monomial]
  by_cases inside : index < w
  · simp [inside]
  · rw [BitVec.getLsbD_of_ge word index (Nat.not_lt.mp inside)]
    simp [inside]

theorem wordPolynomial_xor (first second : BitVec w) :
    wordPolynomial (first ^^^ second) = wordPolynomial first + wordPolynomial second := by
  ext index
  rw [coeff_add, wordPolynomial_coeff, wordPolynomial_coeff, wordPolynomial_coeff, BitVec.getLsbD_xor, scalar_xor]

theorem wordPolynomial_gated (word : BitVec w) (bit : Bool) :
    wordPolynomial (if bit then word else 0) = C (scalar bit) * wordPolynomial word := by
  cases bit with
  | true => simp
  | false =>
    rw [if_neg Bool.false_ne_true, scalar_false, C_0, zero_mul]
    ext index
    rw [wordPolynomial_coeff, coeff_zero, BitVec.ofNat_eq_ofNat, BitVec.getLsbD_zero, scalar_false]

theorem wordPolynomial_one (wide : 0 < w) : wordPolynomial 1#w = 1 := by
  ext index
  rw [wordPolynomial_coeff, coeff_one]
  cases index with
  | zero => simp [wide]
  | succ index => simp

/-- Shifted, a word loses the power that it has no room for. -/
theorem wordPolynomial_shift (word : BitVec w) (wide : 0 < w) :
    wordPolynomial (word <<< 1) + C (scalar word.msb) * X ^ w = X * wordPolynomial word := by
  ext index
  rw [coeff_add, wordPolynomial_coeff, coeff_C_mul, coeff_X_pow, BitVec.getLsbD_shiftLeft, BitVec.msb_eq_getLsbD_last]
  cases index with
  | zero =>
    have other : ¬0 = w := by omega
    simp [other]
  | succ index =>
    rw [coeff_X_mul, wordPolynomial_coeff, Nat.add_sub_cancel]
    by_cases inside : index + 1 < w
    · have other : ¬index + 1 = w := by omega
      simp [inside, other]
    · by_cases last : index + 1 = w
      · have same : w - 1 = index := by omega
        simp [last, same]
      · rw [BitVec.getLsbD_of_ge word index (by omega)]
        simp [inside, last]

theorem wordPolynomial_degree (word : BitVec w) : (wordPolynomial word).degree < w := by
  apply (degree_lt_iff_coeff_zero _ _).mpr
  intro index above
  rw [wordPolynomial_coeff, BitVec.getLsbD_of_ge word index above, scalar_false]

end Words

section Division

variable {w : Nat} {poly : BitVec w} (odd : poly.getLsbD 0 = true)

/-- The polynomial that a register divides by: `poly` and the highest term, which it leaves out. -/
noncomputable def divisor (poly : BitVec w) : (ZMod 2)[X] := X ^ w + wordPolynomial poly

theorem divisor_monic (poly : BitVec w) : (divisor poly).Monic := monic_X_pow_add (wordPolynomial_degree poly)

theorem divisor_degree (poly : BitVec w) : (divisor poly).degree = w := by
  have lower : (wordPolynomial poly).degree < (X ^ w : (ZMod 2)[X]).degree := by
    rw [degree_X_pow]
    exact wordPolynomial_degree poly
  rw [divisor, degree_add_eq_left_of_degree_lt lower, degree_X_pow]

include odd in
theorem wide_of_odd : 0 < w := by
  apply Nat.pos_of_ne_zero
  intro none_
  subst none_
  simp at odd

/-- One step of the division: the next bit is brought down and the divisor taken off at most once. -/
theorem forward_read (state : BitVec w) (bit : Bool) :
    wordPolynomial ((forward odd).read state bit) + divisor poly * C (scalar state.msb) =
      X * wordPolynomial state + C (scalar bit) := by
  have wide := wide_of_odd odd
  have read : (forward odd).read state bit =
      ((state <<< 1) ^^^ if state.msb then poly else 0) ^^^ if bit then 1#w else 0 := rfl
  rw [read, wordPolynomial_xor, wordPolynomial_xor, wordPolynomial_gated, wordPolynomial_gated, wordPolynomial_one wide,
    ← wordPolynomial_shift state wide, divisor]
  have twice : C (scalar state.msb) * wordPolynomial poly + C (scalar state.msb) * wordPolynomial poly = 0 :=
    CharTwo.add_self_eq_zero _
  linear_combination twice

/-- The register holds the remainder of what it started with and the message behind it. -/
theorem forward_remainder (state : BitVec w) (bits : List Bool) :
    wordPolynomial ((forward odd).run state bits) =
      (wordPolynomial state * X ^ bits.length + messagePolynomial bits) %ₘ divisor poly := by
  induction bits generalizing state with
  | nil =>
    have small : (wordPolynomial state).degree < (divisor poly).degree := by
      rw [divisor_degree]
      exact wordPolynomial_degree state
    simp only [Register.run_nil, messagePolynomial, List.length_nil, pow_zero, mul_one, add_zero]
    exact ((modByMonic_eq_self_iff (divisor_monic poly)).mpr small).symm
  | cons bit bits ih =>
    rw [Register.run_cons, ih]
    apply modByMonic_eq_of_dvd_sub (divisor_monic poly)
    have step := forward_read odd state bit
    refine ⟨-(C (scalar state.msb) * X ^ bits.length), ?_⟩
    rw [messagePolynomial, List.length_cons, pow_succ]
    linear_combination X ^ bits.length * step

end Division

end DfuUtilQda.Crc

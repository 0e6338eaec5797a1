import Mathlib.Algebra.Ring.Nat
import Mathlib.Data.List.Basic
import Mathlib.Logic.Function.Iterate

/-! Shift registers that take in a message bit by bit and are linear in it. What a
register makes of a damaged message depends only on the damage, so an error goes
unnoticed exactly when the register, started from zero, comes back to zero on it. -/

namespace DfuUtilQda.Crc

/-- A register of `w` bits. A one bit adds `feed` to the shifted state. -/
structure Register (w : Nat) where
  shift : BitVec w → BitVec w
  feed : BitVec w
  shift_xor : ∀ a b, shift (a ^^^ b) = shift a ^^^ shift b
  shift_eq_zero : ∀ a, shift a = 0 → a = 0

/-- The bits in which two messages differ. -/
def difference (first second : List Bool) : List Bool := List.zipWith xor first second

/-- An error that does not reach beyond `width` consecutive bits. -/
def Confined (width : Nat) (error : List Bool) : Prop :=
  ∃ before pattern after, error = List.replicate before false ++ pattern ++ List.replicate after false ∧ pattern.length ≤ width

theorem difference_eq {first second : List Bool} (same : first.length = second.length)
    (none_ : true ∉ difference first second) : first = second := by
  induction first generalizing second with
  | nil =>
    cases second with
    | nil => rfl
    | cons => cases same
  | cons bit first ih =>
    cases second with
    | nil => cases same
    | cons other second =>
      rw [difference, List.zipWith_cons_cons, List.mem_cons, not_or, ← difference] at none_
      obtain ⟨here, later⟩ := none_
      have equal : bit = other := by
        cases bit <;> cases other <;> simp at here ⊢
      rw [equal, ih (Nat.succ.inj same) later]

theorem gated_xor {w : Nat} (value : BitVec w) (bit other : Bool) :
    (if xor bit other then value else 0) = (if bit then value else 0) ^^^ if other then value else 0 := by
  cases bit <;> cases other <;> simp

namespace Register

variable {w : Nat} (register : Register w)

def read (state : BitVec w) (bit : Bool) : BitVec w := register.shift state ^^^ if bit then register.feed else 0

def run (state : BitVec w) (bits : List Bool) : BitVec w := bits.foldl register.read state

/-- A message of at most `w` bits can be told from silence. -/
def Faithful : Prop := ∀ bits : List Bool, bits.length ≤ w → register.run 0 bits = 0 → true ∉ bits

@[simp] theorem run_nil (state : BitVec w) : register.run state [] = state := rfl

@[simp] theorem run_cons (state : BitVec w) (bit : Bool) (bits : List Bool) :
    register.run state (bit :: bits) = register.run (register.read state bit) bits := rfl

theorem run_append (state : BitVec w) (first second : List Bool) :
    register.run state (first ++ second) = register.run (register.run state first) second := List.foldl_append

@[simp] theorem shift_zero : register.shift 0 = 0 := by
  have twice := register.shift_xor 0 0
  rwa [BitVec.xor_self, BitVec.xor_self] at twice

theorem read_xor (first second : BitVec w) (bit other : Bool) :
    register.read (first ^^^ second) (xor bit other) = register.read first bit ^^^ register.read second other := by
  rw [read, read, read, register.shift_xor, gated_xor]
  ac_rfl

theorem run_difference {first second : List Bool} (same : first.length = second.length) (start other : BitVec w) :
    register.run (start ^^^ other) (difference first second) = register.run start first ^^^ register.run other second := by
  induction first generalizing second start other with
  | nil =>
    cases second with
    | nil => rfl
    | cons => cases same
  | cons bit first ih =>
    cases second with
    | nil => cases same
    | cons bit' second =>
      rw [difference, List.zipWith_cons_cons, run_cons, run_cons, run_cons, read_xor]
      exact ih (Nat.succ.inj same) _ _

/-- Two messages from the same start end in the same state just when their difference leads from zero to zero. -/
theorem run_eq_iff {first second : List Bool} (same : first.length = second.length) (start : BitVec w) :
    register.run start first = register.run start second ↔ register.run 0 (difference first second) = 0 := by
  have sum := register.run_difference same start start
  rw [BitVec.xor_self] at sum
  change register.run 0 _ = _ at sum
  rw [sum]
  exact BitVec.xor_eq_zero_iff.symm

theorem run_silence (state : BitVec w) (count : Nat) :
    register.run state (List.replicate count false) = register.shift^[count] state := by
  induction count generalizing state with
  | zero => rfl
  | succ count ih =>
    have shifted : register.read state false = register.shift state := BitVec.xor_zero
    rw [List.replicate_succ, run_cons, shifted, ih, Function.iterate_succ_apply]

theorem iterate_zero (count : Nat) : register.shift^[count] 0 = 0 := by
  induction count with
  | zero => rfl
  | succ count ih => rw [Function.iterate_succ_apply, shift_zero, ih]

theorem iterate_xor (count : Nat) (first second : BitVec w) :
    register.shift^[count] (first ^^^ second) = register.shift^[count] first ^^^ register.shift^[count] second := by
  induction count generalizing first second with
  | zero => rfl
  | succ count ih => rw [Function.iterate_succ_apply, register.shift_xor, ih, ← Function.iterate_succ_apply, ← Function.iterate_succ_apply]

theorem iterate_eq_zero {count : Nat} {state : BitVec w} (zero : register.shift^[count] state = 0) : state = 0 := by
  induction count generalizing state with
  | zero => exact zero
  | succ count ih => exact register.shift_eq_zero state (ih zero)

/-- Silence around a message neither hides it nor makes it up. -/
theorem run_padded (before after : Nat) (bits : List Bool) :
    register.run 0 (List.replicate before false ++ bits ++ List.replicate after false) = 0 ↔ register.run 0 bits = 0 := by
  rw [run_append, run_append, run_silence, run_silence, iterate_zero]
  constructor
  · exact register.iterate_eq_zero
  · intro zero
    rw [zero, iterate_zero]

theorem burst_detected (faithful : register.Faithful) {error : List Bool} (confined : Confined w error) (some_ : true ∈ error) :
    register.run 0 error ≠ 0 := by
  obtain ⟨before, pattern, after, rfl, short⟩ := confined
  intro zero
  have quiet := faithful pattern short ((register.run_padded before after pattern).mp zero)
  have inside : true ∈ pattern := by
    simpa [List.mem_replicate] using some_
  exact quiet inside

section Parity

variable (parity : BitVec w → Bool)

/-- The parity of the state follows that of the message. -/
theorem parity_run (sum : ∀ a b, parity (a ^^^ b) = xor (parity a) (parity b)) (kept : ∀ a, parity (register.shift a) = parity a)
    (fed : parity register.feed = true) (state : BitVec w) (bits : List Bool) :
    parity (register.run state bits) = xor (parity state) (decide (bits.count true % 2 = 1)) := by
  have nothing : parity 0 = false := by
    have twice := sum 0 0
    rwa [BitVec.xor_self, Bool.xor_self] at twice
  induction bits generalizing state with
  | nil => simp
  | cons bit bits ih =>
    rw [run_cons, ih, read, sum, kept, List.count_cons]
    cases bit with
    | false =>
      rw [if_neg Bool.false_ne_true, nothing, Bool.xor_false]
      rfl
    | true =>
      rw [if_pos rfl, fed]
      obtain even | odd := Nat.mod_two_eq_zero_or_one (bits.count true)
      · have next : (bits.count true + 1) % 2 = 1 := by omega
        simp [even, next]
      · have next : (bits.count true + 1) % 2 = 0 := by omega
        simp [odd, next]

theorem odd_detected (sum : ∀ a b, parity (a ^^^ b) = xor (parity a) (parity b))
    (kept : ∀ a, parity (register.shift a) = parity a) (fed : parity register.feed = true) {error : List Bool}
    (odd : error.count true % 2 = 1) : register.run 0 error ≠ 0 := by
  intro zero
  have followed := register.parity_run parity sum kept fed 0 error
  rw [zero, odd] at followed
  cases parity 0 <;> simp at followed

end Parity

/-- Whether the state comes to `goal` within so many shifts. -/
def reaches (goal : BitVec w) : Nat → BitVec w → Bool
  | 0, _ => false
  | count + 1, state => register.shift state == goal || reaches goal count (register.shift state)

theorem reaches_false {goal : BitVec w} {count : Nat} {state : BitVec w} (never : register.reaches goal count state = false)
    {times : Nat} (few : times < count) : register.shift^[times + 1] state ≠ goal := by
  induction count generalizing state times with
  | zero => exact absurd few (Nat.not_lt_zero _)
  | succ count ih =>
    rw [reaches, Bool.or_eq_false_iff] at never
    cases times with
    | zero => exact ne_of_beq_false never.1
    | succ times => exact ih never.2 (Nat.lt_of_succ_lt_succ few)

theorem pair_run (apart : Nat) : register.run 0 (true :: List.replicate apart false ++ [true]) =
    register.shift^[apart + 1] register.feed ^^^ register.feed := by
  have first : register.read 0 true = register.feed := by
    rw [read, shift_zero, if_pos rfl]
    exact BitVec.zero_xor
  have front : register.run 0 (true :: List.replicate apart false) = register.shift^[apart] register.feed := by
    rw [run_cons, first, run_silence]
  rw [run_append, front, run_cons, run_nil, read, if_pos rfl, Function.iterate_succ_apply']

end Register

theorem count_zero {bits : List Bool} (none_ : bits.count true = 0) : bits = List.replicate bits.length false := by
  apply List.eq_replicate_iff.mpr
  refine ⟨rfl, ?_⟩
  intro bit member
  cases bit with
  | false => rfl
  | true => exact absurd member (List.count_eq_zero.mp none_)

theorem first_flip {bits : List Bool} {count : Nat} (flips : bits.count true = count + 1) :
    ∃ before rest, bits = List.replicate before false ++ true :: rest ∧ rest.count true = count := by
  induction bits with
  | nil => cases flips
  | cons bit bits ih =>
    cases bit with
    | true =>
      refine ⟨0, bits, rfl, ?_⟩
      rw [List.count_cons_self] at flips
      exact Nat.succ.inj flips
    | false =>
      rw [List.count_cons_of_ne Bool.false_ne_true] at flips
      obtain ⟨before, rest, rfl, others⟩ := ih flips
      exact ⟨before + 1, rest, rfl, others⟩

theorem two_flips {bits : List Bool} (flips : bits.count true = 2) : ∃ before apart after,
    bits = List.replicate before false ++ (true :: List.replicate apart false ++ [true]) ++ List.replicate after false := by
  obtain ⟨before, rest, rfl, one⟩ := first_flip flips
  obtain ⟨apart, final, rfl, none_⟩ := first_flip one
  refine ⟨before, apart, final.length, ?_⟩
  rw [count_zero none_]
  simp

/-- Two flips are noticed where the state does not come back to itself between them. -/
theorem Register.pair_detected {w : Nat} (register : Register w) {error : List Bool} (flips : error.count true = 2)
    (period : ∀ apart, apart + 1 < error.length → register.shift^[apart + 1] register.feed ≠ register.feed) :
    register.run 0 error ≠ 0 := by
  obtain ⟨before, apart, after, rfl⟩ := two_flips flips
  intro zero
  rw [run_padded, pair_run] at zero
  apply period apart
  · simp only [List.length_append, List.length_replicate, List.length_cons, List.length_nil]
    omega
  · exact BitVec.xor_eq_zero_iff.mp zero

end DfuUtilQda.Crc

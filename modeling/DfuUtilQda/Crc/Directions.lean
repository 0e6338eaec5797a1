import DfuUtilQda.Crc.Register
import Mathlib.Data.List.Induction

/-! The two ways in which a checksum is computed: from the most significant bit of each
byte, with the message ahead of the register, and reflected, from the least significant bit. -/

namespace DfuUtilQda.Crc

/-- The bits of a byte, the least significant first. -/
def lsbFirst (byte : UInt8) : List Bool := (List.range 8).map byte.toBitVec.getLsbD

/-- The bits of a byte, the most significant first. -/
def msbFirst (byte : UInt8) : List Bool := (lsbFirst byte).reverse

theorem lsbFirst_length (byte : UInt8) : (lsbFirst byte).length = 8 := rfl

section Messages

variable (order : UInt8 → List Bool) (eight : ∀ byte, (order byte).length = 8)
include eight

theorem bits_length (bytes : List UInt8) : (bytes.flatMap order).length = 8 * bytes.length := by
  induction bytes with
  | nil => rfl
  | cons byte bytes ih =>
    rw [List.flatMap_cons, List.length_append, ih, eight, List.length_cons]
    omega

end Messages

section Forward

variable {w : Nat} {poly : BitVec w}

theorem shiftLeft_zero {value : BitVec w} (top : value.msb = false) (zero : value <<< 1 = 0#w) : value = 0#w := by
  apply BitVec.eq_of_getLsbD_eq
  intro index inside
  rw [BitVec.getLsbD_zero]
  by_cases last : index = w - 1
  · rw [last, ← BitVec.msb_eq_getLsbD_last, top]
  · have moved := congrArg (BitVec.getLsbD · (index + 1)) zero
    have room : index + 1 < w := by omega
    simp only [BitVec.getLsbD_shiftLeft, BitVec.getLsbD_zero, room, decide_true, Bool.true_and] at moved
    simpa using moved

/-- Shifted to the left, with the polynomial added for the bit that falls out. Its highest term is left out. -/
def forward (odd : poly.getLsbD 0 = true) : Register w where
  shift state := (state <<< 1) ^^^ if state.msb then poly else 0
  feed := 1#w
  shift_xor a b := by
    rw [BitVec.shiftLeft_xor_distrib, BitVec.msb_xor, gated_xor]
    ac_rfl
  shift_eq_zero a := by
    intro zero
    have low := congrArg (BitVec.getLsbD · 0) zero
    have top : a.msb = false := by
      cases found : a.msb with
      | false => rfl
      | true => simp [found, odd] at low
    apply shiftLeft_zero top
    rwa [top, if_neg Bool.false_ne_true, BitVec.ofNat_eq_ofNat, BitVec.xor_zero] at zero

/-- The bits as a number, the most significant first. -/
def numeral (w : Nat) (bits : List Bool) : BitVec w := bits.foldl (fun value bit => (value <<< 1) ^^^ if bit then 1#w else 0) 0

theorem numeral_snoc (bits : List Bool) (bit : Bool) :
    numeral w (bits ++ [bit]) = (numeral w bits <<< 1) ^^^ if bit then 1#w else 0 := by
  rw [numeral, List.foldl_append]
  rfl

theorem numeral_getLsbD (bits : List Bool) (index : Nat) (inside : index < w) :
    (numeral w bits).getLsbD index = bits.reverse.getD index false := by
  induction bits using List.reverseRecOn generalizing index with
  | nil => simp [numeral]
  | append_singleton bits bit ih =>
    rw [numeral_snoc, BitVec.getLsbD_xor, BitVec.getLsbD_shiftLeft, List.reverse_append, List.reverse_singleton,
      List.singleton_append]
    cases index with
    | zero => cases bit <;> simp [inside]
    | succ index =>
      have earlier := ih index (by omega)
      have single : (if bit then 1#w else 0).getLsbD (index + 1) = false := by cases bit <;> simp
      rw [single, Nat.add_sub_cancel, earlier]
      simp [inside]

theorem numeral_append (bits more : List Bool) :
    numeral w (bits ++ more) = (numeral w bits <<< more.length) ^^^ numeral w more := by
  induction more using List.reverseRecOn with
  | nil =>
    rw [List.append_nil, List.length_nil, BitVec.shiftLeft_zero]
    exact BitVec.xor_zero.symm
  | append_singleton more bit ih =>
    rw [← List.append_assoc, numeral_snoc, ih, numeral_snoc, List.length_append, List.length_singleton, BitVec.shiftLeft_add,
      BitVec.shiftLeft_xor_distrib, BitVec.xor_assoc]

theorem numeral_byte (byte : UInt8) : numeral w (msbFirst byte) = byte.toBitVec.setWidth w := by
  apply BitVec.eq_of_getLsbD_eq
  intro index inside
  rw [numeral_getLsbD _ _ inside, msbFirst, List.reverse_reverse, BitVec.getLsbD_setWidth, lsbFirst]
  by_cases low : index < 8
  · simp [low, inside, List.getD_eq_getElem?_getD]
  · rw [BitVec.getLsbD_of_ge _ _ (Nat.not_lt.mp low)]
    simp [low, List.getD_eq_getElem?_getD]

theorem numeral_top {bits : List Bool} (short : bits.length < w) : (numeral w bits).msb = false := by
  rw [BitVec.msb_eq_getLsbD_last, numeral_getLsbD _ _ (by omega), List.getD_eq_getElem?_getD, List.getElem?_eq_none]
  · rfl
  · rw [List.length_reverse]
    omega

theorem numeral_faithful (bits : List Bool) (short : bits.length ≤ w) (zero : numeral w bits = 0) : true ∉ bits := by
  intro member
  obtain ⟨index, inside, found⟩ := List.mem_iff_getElem.mp (List.mem_reverse.mpr member)
  have below : index < bits.length := by rwa [List.length_reverse] at inside
  have bit := numeral_getLsbD (w := w) bits index (by omega)
  rw [zero, BitVec.ofNat_eq_ofNat, BitVec.getLsbD_zero, List.getD_eq_getElem?_getD, List.getElem?_eq_getElem inside, found] at bit
  exact Bool.false_ne_true bit

variable (odd : poly.getLsbD 0 = true)

/-- As long as nothing falls out, a register collects the number whose bits it takes in. -/
theorem forward_run (state : BitVec w) (bits : List Bool) (short : bits.length ≤ w) :
    (forward odd).run state bits = (forward odd).shift^[bits.length] state ^^^ numeral w bits := by
  induction bits using List.reverseRecOn with
  | nil => exact BitVec.xor_zero.symm
  | append_singleton bits bit ih =>
    rw [List.length_append, List.length_singleton] at short ⊢
    have collected : (forward odd).shift (numeral w bits) = numeral w bits <<< 1 := by
      change (numeral w bits <<< 1) ^^^ (if (numeral w bits).msb then poly else 0) = _
      rw [numeral_top (by omega), if_neg Bool.false_ne_true]
      exact BitVec.xor_zero
    rw [Register.run_append, ih (by omega), Register.run_cons, Register.run_nil, Register.read, (forward odd).shift_xor, collected,
      numeral_snoc, Function.iterate_succ_apply', BitVec.xor_assoc]
    rfl

theorem numeral_silence (count : Nat) : numeral w (List.replicate count false) = 0 := by
  induction count with
  | zero => rfl
  | succ count ih =>
    rw [List.replicate_succ', numeral_snoc, ih, if_neg Bool.false_ne_true]
    simp

theorem forward_moved (bits : List Bool) (count : Nat) (room : bits.length + count ≤ w) :
    (forward odd).shift^[count] (numeral w bits) = numeral w bits <<< count := by
  have collected : (forward odd).run 0 bits = numeral w bits := by
    rw [forward_run odd 0 bits (by omega), Register.iterate_zero]
    exact BitVec.zero_xor
  have padded := forward_run odd 0 (bits ++ List.replicate count false) (by simpa using room)
  rw [Register.run_append, collected, Register.run_silence, Register.iterate_zero, numeral_append, numeral_silence,
    List.length_replicate] at padded
  rw [padded]
  simp

/-- A message behind which `w` zero bits follow may as well be taken in at the top, byte by byte. -/
theorem forward_byte (wide : 8 ≤ w) (state : BitVec w) (byte : UInt8) :
    (forward odd).shift^[w] ((forward odd).run state (msbFirst byte)) =
      (forward odd).shift^[8] ((forward odd).shift^[w] state ^^^ (byte.toBitVec.setWidth w <<< (w - 8))) := by
  have eight : (msbFirst byte).length = 8 := rfl
  have moved := forward_moved odd (msbFirst byte) (w - 8) (by omega)
  rw [numeral_byte] at moved
  have split : 8 + (w - 8) = w := by omega
  have whole (value : BitVec w) : (forward odd).shift^[w] value = (forward odd).shift^[8] ((forward odd).shift^[w - 8] value) := by
    rw [← Function.iterate_add_apply, split]
  rw [forward_run odd state (msbFirst byte) (by omega), eight, numeral_byte, Register.iterate_xor, Register.iterate_xor,
    whole (byte.toBitVec.setWidth w), moved, ← Function.iterate_add_apply, ← Function.iterate_add_apply, Nat.add_comm]

theorem forward_faithful : (forward odd).Faithful := by
  intro bits short zero
  rw [forward_run odd 0 bits short, Register.iterate_zero] at zero
  apply numeral_faithful bits short
  rwa [BitVec.ofNat_eq_ofNat, BitVec.zero_xor] at zero

/-- Whether an odd number of the first bits is set. -/
def parity (bits : Nat → Bool) : Nat → Bool
  | 0 => false
  | count + 1 => xor (parity bits count) (bits count)

theorem parity_congr {bits other : Nat → Bool} {count : Nat} (same : ∀ index < count, bits index = other index) :
    parity bits count = parity other count := by
  induction count with
  | zero => rfl
  | succ count ih => rw [parity, parity, same count (Nat.lt_succ_self _), ih fun index below => same index (Nat.lt_succ_of_lt below)]

theorem parity_sum (bits other : Nat → Bool) (count : Nat) :
    parity (fun index => xor (bits index) (other index)) count = xor (parity bits count) (parity other count) := by
  induction count with
  | zero => rfl
  | succ count ih =>
    simp only [parity, ih, Bool.xor_assoc, Bool.xor_left_comm]

theorem parity_moved (bits : Nat → Bool) (count : Nat) :
    parity (fun index => decide (0 < index) && bits (index - 1)) (count + 1) = parity bits count := by
  induction count with
  | zero => rfl
  | succ count ih =>
    rw [parity, ih, parity]
    simp

/-- Whether the value has an odd number of ones. -/
def oddWeight (value : BitVec w) : Bool := parity value.getLsbD w

theorem oddWeight_xor (first second : BitVec w) : oddWeight (first ^^^ second) = xor (oddWeight first) (oddWeight second) := by
  rw [oddWeight, oddWeight, oddWeight, ← parity_sum]
  exact parity_congr fun index _ => BitVec.getLsbD_xor

theorem oddWeight_zero : oddWeight 0#w = false := by
  have twice := oddWeight_xor 0#w 0#w
  rwa [BitVec.xor_self, Bool.xor_self] at twice

theorem oddWeight_shift (value : BitVec w) : oddWeight (value <<< 1) = xor (oddWeight value) value.msb := by
  cases w with
  | zero => simp [oddWeight, parity, BitVec.msb, BitVec.getMsbD]
  | succ w =>
    have moved : oddWeight (value <<< 1) = parity value.getLsbD w := by
      rw [← parity_moved]
      apply parity_congr
      intro index below
      rw [BitVec.getLsbD_shiftLeft]
      cases index <;> simp [below]
    rw [moved, oddWeight, parity, BitVec.msb_eq_getLsbD_last, Nat.add_sub_cancel]
    simp

theorem oddWeight_one (wide : 0 < w) : oddWeight 1#w = true := by
  obtain ⟨width, rfl⟩ := Nat.exists_eq_succ_of_ne_zero (Nat.pos_iff_ne_zero.mp wide)
  have single (count : Nat) : parity (1#(width + 1)).getLsbD (count + 1) = true := by
    induction count with
    | zero => simp [parity]
    | succ count ih =>
      rw [parity, ih]
      simp
  exact single width

/-- With an even number of terms in the polynomial, its highest one included, an odd number of flips shows. -/
theorem forward_odd_detected (even : oddWeight poly = true) {error : List Bool} (flips : error.count true % 2 = 1) :
    (forward odd).run 0 error ≠ 0 := by
  apply (forward odd).odd_detected oddWeight oddWeight_xor
  · intro state
    change oddWeight ((state <<< 1) ^^^ if state.msb then poly else 0) = _
    rw [oddWeight_xor, oddWeight_shift]
    cases state.msb with
    | false => simp [oddWeight_zero]
    | true => simp [even]
  · apply oddWeight_one
    by_contra none_
    rw [BitVec.getLsbD_of_ge poly 0 (by omega)] at odd
    exact Bool.false_ne_true odd
  · exact flips

end Forward

section Reflected

variable {w : Nat} {poly : BitVec w}

/-- Shifted to the right, with the polynomial added for the bit that falls out; its lowest term is left out
and its highest bit is the term below. A message bit is added before the shift. -/
def reflected (top : poly.msb = true) : Register w where
  shift state := (state >>> 1) ^^^ if state.getLsbD 0 then poly else 0
  feed := poly
  shift_xor a b := by
    rw [BitVec.ushiftRight_xor_distrib, BitVec.getLsbD_xor, gated_xor]
    ac_rfl
  shift_eq_zero a := by
    intro zero
    have wide : 0 < w := by
      cases w with
      | zero => simp [BitVec.msb, BitVec.getMsbD] at top
      | succ => exact Nat.succ_pos _
    have low : a.getLsbD 0 = false := by
      have high := congrArg BitVec.msb zero
      cases found : a.getLsbD 0 with
      | false => rfl
      | true => simp [found, top, BitVec.msb_xor, BitVec.msb_ushiftRight] at high
    rw [low, if_neg Bool.false_ne_true, BitVec.ofNat_eq_ofNat, BitVec.xor_zero] at zero
    apply BitVec.eq_of_getLsbD_eq
    intro index inside
    rw [BitVec.ofNat_eq_ofNat, BitVec.getLsbD_zero]
    cases index with
    | zero => exact low
    | succ index =>
      have moved := congrArg (BitVec.getLsbD · index) zero
      simp only [BitVec.getLsbD_ushiftRight, BitVec.getLsbD_zero] at moved
      rwa [Nat.add_comm] at moved

/-- The bits as a number, the least significant first. -/
def packed (w : Nat) : List Bool → BitVec w
  | [] => 0
  | bit :: bits => (packed w bits <<< 1) ^^^ if bit then 1#w else 0

theorem packed_high (bits : List Bool) (index : Nat) (above : bits.length ≤ index) : (packed w bits).getLsbD index = false := by
  induction bits generalizing index with
  | nil => exact BitVec.getLsbD_zero
  | cons bit bits ih =>
    rw [List.length_cons] at above
    have single : (if bit then 1#w else 0).getLsbD index = false := by
      cases bit with
      | false => exact BitVec.getLsbD_zero
      | true =>
        have different : index ≠ 0 := by omega
        simp [different]
    rw [packed, BitVec.getLsbD_xor, single, BitVec.getLsbD_shiftLeft, ih (index - 1) (by omega)]
    simp

theorem packed_getLsbD (bits : List Bool) (index : Nat) (inside : index < w) :
    (packed w bits).getLsbD index = bits.getD index false := by
  induction bits generalizing index with
  | nil => simp [packed]
  | cons bit bits ih =>
    rw [packed, BitVec.getLsbD_xor, BitVec.getLsbD_shiftLeft]
    cases index with
    | zero => cases bit <;> simp [inside]
    | succ index =>
      have earlier := ih index (by omega)
      have single : (if bit then 1#w else 0).getLsbD (index + 1) = false := by cases bit <;> simp
      rw [single, Nat.add_sub_cancel, earlier]
      simp [inside]

/-- The same as a natural number. -/
def packedNat : List Bool → Nat
  | [] => 0
  | bit :: bits => bit.toNat + 2 * packedNat bits

theorem packed_eq (bits : List Bool) : packed w bits = BitVec.ofNat w (packedNat bits) := by
  apply BitVec.eq_of_getLsbD_eq
  intro index inside
  rw [packed_getLsbD bits index inside, BitVec.getLsbD_ofNat, decide_eq_true inside, Bool.true_and]
  clear inside
  induction bits generalizing index with
  | nil => simp [packedNat]
  | cons bit bits ih =>
    cases index with
    | zero => cases bit <;> simp [packedNat]
    | succ index =>
      have moved : (bit.toNat + 2 * packedNat bits) / 2 = packedNat bits := by
        cases bit
        · simp
        · simp only [Bool.toNat_true]
          omega
      rw [packedNat, Nat.testBit_succ, moved, ← ih index]
      rfl

theorem packedNat_byte (byte : UInt8) : packedNat (lsbFirst byte) = byte.toNat := by
  have all : ∀ value : Fin 256, packedNat (lsbFirst (UInt8.ofFin value)) = value := by decide +kernel
  exact all byte.toFin

variable (top : poly.msb = true)

/-- A number that was shifted up comes down again. -/
theorem shift_down {value : BitVec w} (room : value.msb = false) : (reflected top).shift (value <<< 1) = value := by
  change ((value <<< 1) >>> 1) ^^^ (if (value <<< 1).getLsbD 0 then poly else 0) = value
  have low : (value <<< 1).getLsbD 0 = false := by simp
  rw [low, if_neg Bool.false_ne_true, BitVec.ofNat_eq_ofNat, BitVec.xor_zero]
  apply BitVec.eq_of_getLsbD_eq
  intro index inside
  simp only [BitVec.getLsbD_ushiftRight, BitVec.getLsbD_shiftLeft]
  by_cases last : index = w - 1
  · rw [last, ← BitVec.msb_eq_getLsbD_last, room]
    have above : ¬1 + (w - 1) < w := by omega
    simp [above]
  · have below : 1 + index < w := by omega
    simp [below]

theorem feed_eq (wide : 0 < w) : (reflected top).feed = (reflected top).shift 1#w := by
  change poly = ((1#w) >>> 1) ^^^ if (1#w).getLsbD 0 then poly else 0
  have low : (1#w).getLsbD 0 = true := by simp [wide]
  have gone : (1#w) >>> 1 = 0#w := by
    apply BitVec.eq_of_getLsbD_eq
    intro index inside
    simp
  rw [low, if_pos rfl, gone, BitVec.zero_xor]

/-- Taking in at most `w` bits is adding them to the state and shifting it as often. -/
theorem reflected_run (state : BitVec w) (bits : List Bool) (short : bits.length ≤ w) :
    (reflected top).run state bits = (reflected top).shift^[bits.length] (state ^^^ packed w bits) := by
  induction bits generalizing state with
  | nil => exact (BitVec.xor_zero).symm
  | cons bit bits ih =>
    rw [List.length_cons] at short
    have room : (packed w bits).msb = false := by
      rw [BitVec.msb_eq_getLsbD_last]
      apply packed_high
      omega
    have input : (if bit then (reflected top).feed else 0) = (reflected top).shift (if bit then 1#w else 0) := by
      cases bit with
      | false => exact (Register.shift_zero _).symm
      | true => exact feed_eq top (by omega)
    rw [Register.run_cons, ih _ (by omega), List.length_cons, Function.iterate_succ_apply, packed, Register.read, input,
      (reflected top).shift_xor, (reflected top).shift_xor, shift_down top room]
    congr 1
    ac_rfl

theorem iterate_down (count : Nat) {value : BitVec w} (room : ∀ index, w ≤ index + count → value.getLsbD index = false) :
    (reflected top).shift^[count] (value <<< count) = value := by
  induction count with
  | zero => exact BitVec.shiftLeft_zero value
  | succ count ih =>
    have free : (value <<< count).msb = false := by
      rw [BitVec.msb_eq_getLsbD_last, BitVec.getLsbD_shiftLeft]
      by_cases wide : w - 1 < count
      · simp [wide]
      · rw [room (w - 1 - count) (by omega)]
        simp
    rw [Function.iterate_succ_apply, BitVec.shiftLeft_add, shift_down top free]
    apply ih
    intro index above
    exact room index (by omega)

/-- Several shifts at once: those of the bits that fall out, which a table can hold, and the others moved down. -/
theorem iterate_table (count : Nat) (state : BitVec w) :
    (reflected top).shift^[count] state =
      (reflected top).shift^[count] (state &&& BitVec.ofNat w (2 ^ count - 1)) ^^^ (state >>> count) := by
  have split : state = (state &&& BitVec.ofNat w (2 ^ count - 1)) ^^^ ((state >>> count) <<< count) := by
    apply BitVec.eq_of_getLsbD_eq
    intro index inside
    simp only [BitVec.getLsbD_xor, BitVec.getLsbD_and, BitVec.getLsbD_shiftLeft, BitVec.getLsbD_ushiftRight, BitVec.getLsbD_ofNat,
      Nat.testBit_two_pow_sub_one]
    by_cases low : index < count
    · simp [low, inside]
    · have place : count + (index - count) = index := by omega
      simp [low, inside, place]
  have down : (reflected top).shift^[count] ((state >>> count) <<< count) = state >>> count := by
    apply iterate_down top count
    intro index above
    rw [BitVec.getLsbD_ushiftRight]
    apply BitVec.getLsbD_of_ge
    omega
  conv => lhs; rw [split]
  rw [Register.iterate_xor, down]

/-- A byte may as well be added first, and its bits shifted out with the state. -/
theorem reflected_bits (wide : 8 ≤ w) (state : BitVec w) (byte : UInt8) :
    (reflected top).run state (lsbFirst byte) = (reflected top).shift^[8] (state ^^^ BitVec.ofNat w byte.toNat) := by
  rw [reflected_run top _ _ (by rwa [lsbFirst_length]), packed_eq, packedNat_byte, lsbFirst_length]

/-- A byte at a time: it is added to the low byte of the state, whose eight shifts a table can hold. -/
theorem reflected_byte (wide : 8 ≤ w) (state : BitVec w) (byte : UInt8) : (reflected top).run state (lsbFirst byte) =
    (reflected top).shift^[8] ((state ^^^ BitVec.ofNat w byte.toNat) &&& BitVec.ofNat w 255) ^^^ (state >>> 8) := by
  have low : BitVec.ofNat w byte.toNat >>> 8 = 0#w := by
    apply BitVec.eq_of_getLsbD_eq
    intro index _
    have above : byte.toNat.testBit (8 + index) = false := by
      apply Nat.testBit_lt_two_pow
      exact Nat.lt_of_lt_of_le byte.toNat_lt (Nat.pow_le_pow_right (by omega) (Nat.le_add_right _ _))
    rw [BitVec.getLsbD_ushiftRight, BitVec.getLsbD_ofNat, above, Bool.and_false, BitVec.getLsbD_zero]
  rw [reflected_bits top wide, iterate_table top 8, BitVec.ushiftRight_xor_distrib, low, BitVec.xor_zero]
  rfl

end Reflected

end DfuUtilQda.Crc

import DfuUtilQda.Crc.Directions
import DfuUtilQda.Proofs.ReceptionFaults

/-! What the checksum of a frame is good for. The accumulator of `crc_xmodem` is a shift register
in its lower half, so a damaged frame is refused if the damage alone would not leave it at zero. -/

namespace DfuUtilQda.Xmodem
open Interaction Machine Crc

/-- The register that `crc_xmodem` shifts, with the terms of its polynomial below the highest. -/
def crcRegister : Register 16 := @forward 16 0x1021#16 (by decide)

/-- The part of the accumulator that counts. The bits above it are never taken out of it. -/
def accumulator (crc : UInt32) : BitVec 16 := crc.toBitVec.setWidth 16

theorem masked {w : Nat} (word mask : BitVec w) (index : Nat) (inside : index < w) (bit : mask = BitVec.twoPow w index) :
    word &&& mask = 0#w ↔ word.getLsbD index = false := by
  rw [bit, BitVec.and_twoPow]
  cases word.getLsbD index with
  | false => simp
  | true =>
    have some_ : BitVec.twoPow w index ≠ 0#w := by
      intro zero
      have found := congrArg (BitVec.getLsbD · index) zero
      simp [inside] at found
    simp [some_]

theorem accumulator_carry (crc : UInt32) : crc &&& 0x10000 ≠ 0 ↔ crc.toBitVec.getLsbD 16 = true := by
  rw [Ne, ← UInt32.toBitVec_inj, ← Bool.not_eq_false]
  exact not_congr (masked _ _ 16 (by decide) (by decide))

theorem accumulator_top (crc : UInt32) : crc &&& 0x8000 ≠ 0 ↔ (accumulator crc).msb = true := by
  have top : (accumulator crc).msb = crc.toBitVec.getLsbD 15 := by
    rw [BitVec.msb_eq_getLsbD_last, accumulator, BitVec.getLsbD_setWidth]
    rfl
  rw [top, Ne, ← UInt32.toBitVec_inj, ← Bool.not_eq_false]
  exact not_congr (masked _ _ 15 (by decide) (by decide))

theorem data_top (data : UInt8) : data &&& 0x80 ≠ 0 ↔ data.toBitVec.msb = true := by
  rw [BitVec.msb_eq_getLsbD_last, Ne, ← UInt8.toBitVec_inj, ← Bool.not_eq_false]
  exact not_congr (masked _ _ 7 (by decide) (by decide))

@[simp] theorem accumulator_xor (crc other : UInt32) : accumulator (crc ^^^ other) = accumulator crc ^^^ accumulator other := by
  simp [accumulator]

theorem toBitVec_double (crc : UInt32) : (crc <<< 1).toBitVec = crc.toBitVec <<< 1 := rfl

@[simp] theorem accumulator_shift (crc : UInt32) : accumulator (crc <<< 1) = accumulator crc <<< 1 := by
  apply BitVec.eq_of_getLsbD_eq
  intro index inside
  have wide : index < 32 := by omega
  simp only [accumulator, toBitVec_double, BitVec.getLsbD_setWidth, BitVec.getLsbD_shiftLeft, inside, wide, decide_true,
    Bool.true_and]
  by_cases first : index < 1
  · simp [first]
  · have below : index - 1 < 16 := by omega
    simp [below]

/-- The shifted accumulator with the next bit of the message. -/
def withBit (crc : UInt32) (bit : Bool) : UInt32 := if bit then crc <<< 1 ||| 1 else crc <<< 1

theorem withBit_eq (crc : UInt32) (bit : Bool) : (withBit crc bit).toBitVec = (crc.toBitVec <<< 1) ^^^ if bit then 1#32 else 0#32 := by
  cases bit with
  | false => exact BitVec.xor_zero.symm
  | true =>
    apply BitVec.eq_of_getLsbD_eq
    intro index inside
    have one : (1 : UInt32).toBitVec = 1#32 := rfl
    rw [withBit, if_pos rfl, if_pos rfl, UInt32.toBitVec_or, toBitVec_double, one]
    cases index <;> simp

theorem accumulator_withBit (crc : UInt32) (bit : Bool) :
    accumulator (withBit crc bit) = (accumulator crc <<< 1) ^^^ if bit then 1#16 else 0 := by
  rw [accumulator, withBit_eq, BitVec.setWidth_xor, ← toBitVec_double]
  change accumulator (crc <<< 1) ^^^ _ = _
  rw [accumulator_shift]
  cases bit <;> rfl

theorem withBit_carry (crc : UInt32) (bit : Bool) : (withBit crc bit).toBitVec.getLsbD 16 = (accumulator crc).msb := by
  have top : (accumulator crc).msb = crc.toBitVec.getLsbD 15 := by
    rw [BitVec.msb_eq_getLsbD_last, accumulator, BitVec.getLsbD_setWidth]
    rfl
  rw [withBit_eq, BitVec.getLsbD_xor, BitVec.getLsbD_shiftLeft, top]
  cases bit <;> simp

theorem crcShift_read (crc : UInt32) (data : UInt8) :
    accumulator (crcShift (crc, data)).1 = crcRegister.read (accumulator crc) data.toBitVec.msb := by
  have next : (if data &&& 0x80 ≠ 0 then crc <<< 1 ||| 1 else crc <<< 1) = withBit crc data.toBitVec.msb := by
    simp only [data_top, withBit]
  have read : crcRegister.read (accumulator crc) data.toBitVec.msb =
      ((accumulator crc <<< 1) ^^^ if (accumulator crc).msb then 0x1021#16 else 0) ^^^ if data.toBitVec.msb then 1#16 else 0 := rfl
  simp only [crcShift, next, accumulator_carry, withBit_carry]
  rw [read]
  cases (accumulator crc).msb with
  | false =>
    rw [if_neg Bool.false_ne_true, if_neg Bool.false_ne_true, accumulator_withBit]
    exact congrArg (· ^^^ _) BitVec.xor_zero.symm
  | true =>
    rw [if_pos rfl, if_pos rfl, accumulator_xor, accumulator_withBit]
    have term : accumulator poly = 0x1021#16 := rfl
    rw [term]
    ac_rfl

theorem crcAppend_read (crc : UInt32) : accumulator (crcAppend crc) = crcRegister.read (accumulator crc) false := by
  have read : crcRegister.read (accumulator crc) false =
      ((accumulator crc <<< 1) ^^^ if (accumulator crc).msb then 0x1021#16 else 0) ^^^ 0 := rfl
  simp only [crcAppend, accumulator_top]
  rw [read, BitVec.ofNat_eq_ofNat, BitVec.xor_zero]
  cases (accumulator crc).msb with
  | false =>
    rw [if_neg Bool.false_ne_true, if_neg Bool.false_ne_true, accumulator_shift]
    exact BitVec.xor_zero.symm
  | true =>
    rw [if_pos rfl, if_pos rfl, accumulator_xor, accumulator_shift]
    rfl

/-- The top bits of a byte that is shifted so many times. -/
def topBits : Nat → UInt8 → List Bool
  | 0, _ => []
  | count + 1, data => data.toBitVec.msb :: topBits count (data <<< 1)

theorem topBits_eight (data : UInt8) : topBits 8 data = msbFirst data := by
  have shifted (byte : UInt8) : (byte <<< 1).toBitVec = byte.toBitVec <<< 1 := rfl
  simp [topBits, msbFirst, lsbFirst, List.range, List.range.loop, shifted, BitVec.msb, BitVec.getMsbD]

theorem crcShift_run (count : Nat) (crc : UInt32) (data : UInt8) :
    accumulator (crcShift^[count] (crc, data)).1 = crcRegister.run (accumulator crc) (topBits count data) := by
  induction count generalizing crc data with
  | zero => rfl
  | succ count ih =>
    have step : crcShift (crc, data) = ((crcShift (crc, data)).1, data <<< 1) := rfl
    rw [Function.iterate_succ_apply, step, ih, crcShift_read]
    rfl

theorem crcFold_run (crc : UInt32) (data : List UInt8) :
    accumulator (data.foldl crcByte crc) = crcRegister.run (accumulator crc) (data.flatMap msbFirst) := by
  induction data generalizing crc with
  | nil => rfl
  | cons byte data ih =>
    rw [List.foldl_cons, ih, List.flatMap_cons, Register.run_append, crcByte, crcShift_run, topBits_eight]

theorem crcAppend_run (count : Nat) (crc : UInt32) : accumulator (crcAppend^[count] crc) = crcRegister.shift^[count] (accumulator crc) := by
  induction count generalizing crc with
  | zero => rfl
  | succ count ih =>
    have silent : crcRegister.read (accumulator crc) false = crcRegister.shift (accumulator crc) := BitVec.xor_zero
    rw [Function.iterate_succ_apply, ih, crcAppend_read, silent, Function.iterate_succ_apply]

theorem crcOf_eq (data : List UInt8) :
    (crcOf data).toBitVec = crcRegister.shift^[16] (crcRegister.run 0 (data.flatMap msbFirst)) := by
  have zero : accumulator 0 = 0 := rfl
  rw [← zero, ← crcFold_run, ← crcAppend_run]
  rfl

/-- The bits that the checksum is computed over, and those of the checksum itself. -/
def XmodemPacket.checkedBits (packet : XmodemPacket) : List Bool :=
  (packet.data ++ [packet.crcU8.1, packet.crcU8.2]).flatMap msbFirst

theorem received_crc (high low : UInt8) :
    numeral 16 (msbFirst high ++ msbFirst low) = ((high.toUInt16 <<< 8) ||| low.toUInt16).toBitVec := by
  rw [numeral_append, numeral_byte, numeral_byte]
  apply BitVec.eq_of_getLsbD_eq
  intro index inside
  have moved : (high.toUInt16 <<< 8).toBitVec = high.toBitVec.setWidth 16 <<< 8 := rfl
  have placed : low.toUInt16.toBitVec = low.toBitVec.setWidth 16 := rfl
  have eight : (msbFirst low).length = 8 := rfl
  rw [UInt16.toBitVec_or, moved, placed, eight]
  simp only [BitVec.getLsbD_xor, BitVec.getLsbD_or, BitVec.getLsbD_shiftLeft, BitVec.getLsbD_setWidth]
  by_cases front : index < 8
  · simp [front]
  · rw [BitVec.getLsbD_of_ge low.toBitVec index (Nat.not_lt.mp front)]
    simp

/-- With the right checksum behind it, a payload leads the register from zero back to zero. -/
theorem XmodemPacket.intact_bits {packet : XmodemPacket} (intact : packet.intact = true) :
    crcRegister.run 0 packet.checkedBits = 0 := by
  simp only [XmodemPacket.intact, Bool.and_eq_true, decide_eq_true_eq] at intact
  have bits : packet.checkedBits = packet.data.flatMap msbFirst ++ (msbFirst packet.crcU8.1 ++ msbFirst packet.crcU8.2) := by
    rw [XmodemPacket.checkedBits, List.flatMap_append]
    simp
  rw [bits, Register.run_append, crcRegister, forward_run _ _ _ (Nat.le_refl 16), received_crc, intact.2, crcXmodem, crcOf_eq]
  exact BitVec.xor_self

/-- The bits of the payload and the checksum that are not as they were sent. -/
def XmodemPacket.flips (packet damaged : XmodemPacket) : List Bool := difference packet.checkedBits damaged.checkedBits

/-- Damage to the payload and the checksum, or to one of the numbers. -/
inductive Damage (packet damaged : XmodemPacket) : Prop where
  | burst (confined : Confined 16 (packet.flips damaged)) (flipped : packet.checkedBits ≠ damaged.checkedBits)
  | odd (flips : (packet.flips damaged).count true % 2 = 1)
  | pair (flips : (packet.flips damaged).count true = 2)
  | seqNo (altered : damaged.seqNo ≠ packet.seqNo) (other : damaged.seqNoInv = packet.seqNoInv)
  | seqNoInv (altered : damaged.seqNoInv ≠ packet.seqNoInv) (other : damaged.seqNo = packet.seqNo)

theorem XmodemPacket.checkedBits_length (packet : XmodemPacket) : packet.checkedBits.length = 1040 := by
  rw [XmodemPacket.checkedBits, bits_length msbFirst (fun _ => rfl), List.length_append, packet.data_length]
  rfl

theorem crcRegister_period : crcRegister.reaches crcRegister.feed 1039 crcRegister.feed = false := by
  decide +kernel

/-- No such damage can make up for itself. -/
theorem flips_detected {packet damaged : XmodemPacket} (intact : packet.intact = true) (found : damaged.intact = true) :
    ¬(Confined 16 (packet.flips damaged) ∧ packet.checkedBits ≠ damaged.checkedBits) ∧
    (packet.flips damaged).count true % 2 ≠ 1 ∧ (packet.flips damaged).count true ≠ 2 := by
  have same : packet.checkedBits.length = damaged.checkedBits.length := by
    rw [packet.checkedBits_length, damaged.checkedBits_length]
  have silent : crcRegister.run 0 (packet.flips damaged) = 0 := by
    apply (crcRegister.run_eq_iff same 0).mp
    rw [XmodemPacket.intact_bits intact, XmodemPacket.intact_bits found]
  refine ⟨?_, ?_, ?_⟩
  · intro burst
    have flipped : true ∈ packet.flips damaged := by
      by_contra none_
      exact burst.2 (difference_eq same none_)
    exact crcRegister.burst_detected (forward_faithful _) burst.1 flipped silent
  · intro odd
    exact forward_odd_detected _ (by decide) odd silent
  · intro pair
    apply crcRegister.pair_detected pair _ silent
    intro apart inside
    apply crcRegister.reaches_false crcRegister_period
    have length : (packet.flips damaged).length = 1040 := by
      rw [XmodemPacket.flips, difference, List.length_zipWith, packet.checkedBits_length, damaged.checkedBits_length]
      rfl
    omega

theorem damage_found {packet damaged : XmodemPacket} (intact : packet.intact = true) (damage : Damage packet damaged) :
    damaged.intact = false := by
  by_contra unseen
  have found : damaged.intact = true := by
    rwa [Bool.not_eq_false] at unseen
  obtain ⟨burst, odd, pair⟩ := flips_detected intact found
  have number := XmodemPacket.intact_seqNo intact
  have numbered := XmodemPacket.intact_seqNo found
  cases damage with
  | burst confined flipped => exact burst ⟨confined, flipped⟩
  | odd flips => exact odd flips
  | pair flips => exact pair flips
  | seqNo altered other =>
    rw [other, ← number] at numbered
    exact altered numbered
  | seqNoInv altered other =>
    rw [other, number] at numbered
    exact altered (UInt8.not_inj.mp numbered).symm

/-- A damaged frame is refused: `xmodem_read_pkt` comes to its end on it, with an error and with the
caller's buffer as it was, whatever was expected and wherever the payload was to go. -/
theorem damaged_frame_refused {frame damaged : Frame} (intact : frame.intact = true)
    (damage : Damage frame.toXmodemPacket damaged.toXmodemPacket) (expSeqNo : UInt8) (buf : List UInt8) (offset : Int) (len : Nat)
    (held : XmodemPacket) :
    (∃ now kept, outcomes now = damaged.bytes.map some ∧
      Runs ((xmodemReadPkt expSeqNo buf offset len).run held) now (.ret ((.err, buf), kept))) ∧
    ∀ now status after kept more, Runs ((xmodemReadPkt expSeqNo buf offset len).run held) now (.ret ((status, after), kept)) →
      outcomes now = damaged.bytes.map some ++ more → status = .err ∧ after = buf ∧ more = [] := by
  have verdict : damaged.verdict expSeqNo len = .err := by
    rw [XmodemPacket.verdict, if_pos (damage_found intact damage)]
  have read : ReadsPkt expSeqNo len (damaged.bytes.map some) .err [] := by
    rw [← verdict]
    apply ReadsPkt.refused
    simp [verdict]
  obtain ⟨now, kept, heard, run⟩ := read.occurs_untaken (by simp) buf offset held
  refine ⟨⟨now, kept, heard, run⟩, ?_⟩
  intro later status after kept' more other arrival
  obtain ⟨rfl, equal⟩ := same_history other run (show outcomes later ++ [] = outcomes now ++ more by simp [arrival, heard])
  cases equal
  rw [heard] at arrival
  exact ⟨rfl, rfl, List.self_eq_append_right.mp arrival⟩

/-- A frame with nothing but zeros in its payload, and the last byte of its checksum. -/
def zeroFrame (last : UInt8) : Frame := ⟨⟨soh :: 1 :: 0xfe :: (List.replicate 129 0 ++ [last]), by simp⟩, rfl⟩

theorem zeroFrame_intact : (zeroFrame 0).intact = true := by
  have still (count : Nat) : (List.replicate count 0).foldl crcByte 0 = 0 := by
    have byte : crcByte 0 0 = 0 := by decide
    induction count with
    | zero => rfl
    | succ count ih => rw [List.replicate_succ, List.foldl_cons, byte, ih]
  have data : (zeroFrame 0).data = List.replicate 128 0 := by decide
  have appended : crcAppend 0 = 0 := by decide
  have crc : crcXmodem (zeroFrame 0).toXmodemPacket = 0 := by
    rw [crcXmodem, data, crcOf, still, Function.iterate_fixed appended]
    rfl
  rw [XmodemPacket.intact, crc]
  decide

theorem zero_frame_with_a_flip_refused : ∃ now kept, outcomes now = (zeroFrame 0x10).bytes.map some ∧
    Runs ((xmodemReadPkt 1 (List.replicate 128 0) 0 128).run .blank) now (.ret ((.err, List.replicate 128 0), kept)) := by
  have flips : ((zeroFrame 0).flips (zeroFrame 0x10).toXmodemPacket).count true % 2 = 1 := by decide +kernel
  exact (damaged_frame_refused zeroFrame_intact (.odd flips) 1 (List.replicate 128 0) 0 128 .blank).1

end DfuUtilQda.Xmodem

import DfuUtilQda.Crc.Polynomial
import DfuUtilQda.Proofs.PacketCrc

/-! What the checksum of a packet is: the remainder of a division, whichever of the two usual
ways it is computed in. The accumulator's upper half takes no part. -/

namespace DfuUtilQda.Xmodem
open Interaction Machine Crc Polynomial

/-- One bit of the usual computation, which keeps to 16 bits. -/
def crc16Bit (crc : UInt16) : UInt16 := if crc &&& 0x8000 ≠ 0 then (crc <<< 1) ^^^ 0x1021 else crc <<< 1

/-- The usual computation adds each byte at the top of the register. -/
def crc16Byte (crc : UInt16) (byte : UInt8) : UInt16 := crc16Bit^[8] (crc ^^^ (byte.toUInt16 <<< 8))

/-- CRC-16/XMODEM, a byte at a time. -/
def crc16 (bytes : List UInt8) : UInt16 := bytes.foldl crc16Byte 0

theorem crc16Bit_shift (crc : UInt16) : (crc16Bit crc).toBitVec = crcRegister.shift crc.toBitVec := by
  have top : crc &&& 0x8000 ≠ 0 ↔ crc.toBitVec.msb = true := by
    rw [BitVec.msb_eq_getLsbD_last, Ne, ← UInt16.toBitVec_inj, ← Bool.not_eq_false]
    exact not_congr (masked _ _ 15 (by decide) (by decide))
  have shift : crcRegister.shift crc.toBitVec = (crc.toBitVec <<< 1) ^^^ if crc.toBitVec.msb then 0x1021#16 else 0 := rfl
  have moved : (crc <<< 1).toBitVec = crc.toBitVec <<< 1 := rfl
  rw [shift, crc16Bit]
  simp only [top]
  cases crc.toBitVec.msb with
  | false => exact moved.trans BitVec.xor_zero.symm
  | true =>
    rw [if_pos rfl, if_pos rfl, UInt16.toBitVec_xor, moved]
    rfl

theorem crc16Bits_shift (count : Nat) (crc : UInt16) : (crc16Bit^[count] crc).toBitVec = crcRegister.shift^[count] crc.toBitVec := by
  induction count generalizing crc with
  | zero => rfl
  | succ count ih => rw [Function.iterate_succ_apply, ih, crc16Bit_shift, Function.iterate_succ_apply]

theorem crc16Byte_run (state : BitVec 16) (crc : UInt16) (byte : UInt8) (ahead : crc.toBitVec = crcRegister.shift^[16] state) :
    (crc16Byte crc byte).toBitVec = crcRegister.shift^[16] (crcRegister.run state (msbFirst byte)) := by
  have placed : (byte.toUInt16 <<< 8).toBitVec = byte.toBitVec.setWidth 16 <<< (16 - 8) := rfl
  rw [crc16Byte, crc16Bits_shift, UInt16.toBitVec_xor, placed, ahead, crcRegister, forward_byte _ (by decide)]

/-- The usual register is 16 bits ahead of the one that takes in the message at the bottom. -/
theorem crc16_run (bytes : List UInt8) (state : BitVec 16) (crc : UInt16) (ahead : crc.toBitVec = crcRegister.shift^[16] state) :
    (bytes.foldl crc16Byte crc).toBitVec = crcRegister.shift^[16] (crcRegister.run state (bytes.flatMap msbFirst)) := by
  induction bytes generalizing state crc with
  | nil => exact ahead
  | cons byte bytes ih =>
    rw [List.foldl_cons, List.flatMap_cons, Register.run_append]
    exact ih _ _ (crc16Byte_run state crc byte ahead)

theorem crcOf_eq_crc16 (data : List UInt8) : crcOf data = crc16 data := by
  apply UInt16.toBitVec_inj.mp
  rw [crcOf_eq, crc16, crc16_run data 0 0 (Register.iterate_zero _ _).symm]

theorem crc_divisor : divisor 0x1021#16 = X ^ 16 + X ^ 12 + X ^ 5 + 1 := by
  have terms : wordPolynomial 0x1021#16 = X ^ 12 + X ^ 5 + 1 := by
    simp [wordPolynomial, Finset.sum_range_succ, ← X_pow_eq_monomial]
    ring
  rw [divisor, terms]
  ring

theorem crcOf_remainder (data : List UInt8) : wordPolynomial (crcOf data).toBitVec =
    (messagePolynomial (data.flatMap msbFirst) * X ^ 16) %ₘ (X ^ 16 + X ^ 12 + X ^ 5 + 1) := by
  have silence : messagePolynomial (List.replicate 16 false) = 0 := by
    simp [messagePolynomial, List.replicate_succ]
  have start : wordPolynomial (0 : BitVec 16) = 0 := by
    simp [wordPolynomial]
  have division := @forward_remainder 16 0x1021#16 (by decide) 0 (data.flatMap msbFirst ++ List.replicate 16 false)
  rw [Register.run_append, Register.run_silence, messagePolynomial_append, silence, start, crc_divisor,
    List.length_replicate, zero_mul, zero_add, add_zero] at division
  rw [crcOf_eq]
  exact division

theorem crcResult_eq (crc : UInt32) (count : Nat) (byte : UInt8) (rest : List UInt8) :
    (crcAppend^[16] (rest.foldl crcByte (crcShift^[count] (crc, byte)).1)).toUInt16.toBitVec =
      crcRegister.shift^[16] (crcRegister.run (accumulator crc) (topBits count byte ++ rest.flatMap msbFirst)) := by
  rw [Register.run_append, ← crcShift_run, ← crcFold_run, ← crcAppend_run]
  rfl

/-- The checksum is CRC-16/XMODEM: a remainder modulo its polynomial and what the usual
computation gives. From any point of the first loop on, the upper half of the accumulator
makes no difference. -/
theorem crc_xmodem_remainder (packet : XmodemPacket) :
    wordPolynomial (crcXmodem packet).toBitVec =
      (messagePolynomial (packet.data.flatMap msbFirst) * X ^ 16) %ₘ (X ^ 16 + X ^ 12 + X ^ 5 + 1) ∧
    crcXmodem packet = crc16 packet.data ∧
    ∀ (crc other : UInt32) (count : Nat) (byte : UInt8) (rest : List UInt8), crc.toUInt16 = other.toUInt16 →
      (crcAppend^[16] (rest.foldl crcByte (crcShift^[count] (crc, byte)).1)).toUInt16 =
        (crcAppend^[16] (rest.foldl crcByte (crcShift^[count] (other, byte)).1)).toUInt16 := by
  refine ⟨crcOf_remainder packet.data, crcOf_eq_crc16 packet.data, ?_⟩
  intro crc other count byte rest same
  have lower : accumulator crc = accumulator other := congrArg UInt16.toBitVec same
  apply UInt16.toBitVec_inj.mp
  rw [crcResult_eq, crcResult_eq, lower]

/-- The check value of the algorithm. -/
example : crcOf [0x31, 0x32, 0x33, 0x34, 0x35, 0x36, 0x37, 0x38, 0x39] = 0x31c3 := by decide +kernel

end DfuUtilQda.Xmodem

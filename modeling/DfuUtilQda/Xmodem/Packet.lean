import Mathlib.Logic.Function.Iterate
import DfuUtilQda.Interaction.Static
import DfuUtilQda.Machine.Memory

/-! The XMODEM packet buffer, its checksum and the serial line operations. The
buffer is static and shared by sending and receiving, so what one transfer leaves
in it is still there for the next. -/

namespace DfuUtilQda.Xmodem
open Interaction Machine

def maxRxErrors : Nat := 5
def maxRetransmit : Nat := 3
def timeoutStd : Nat := 3000
def timeoutErr : Nat := 300

/-- Not transferred; what a response variable holds when nothing was read into it. -/
def err : UInt8 := 0xFF

def soh : UInt8 := 0x01
def eot : UInt8 := 0x04
def ack : UInt8 := 0x06
def nak : UInt8 := 0x15
def can : UInt8 := 0x18
def charC : UInt8 := 0x43

def packetPayloadSize : Nat := 128

def poly : UInt32 := 0x1021

/-- `struct xmodem_packet`: one byte each for SOH, the number and its complement,
then 128 bytes of payload and two of checksum. -/
structure XmodemPacket where
  bytes : List UInt8
  size : bytes.length = 133

namespace XmodemPacket

def seqNo (packet : XmodemPacket) : UInt8 := packet.bytes.getD 1 0
def seqNoInv (packet : XmodemPacket) : UInt8 := packet.bytes.getD 2 0
def data (packet : XmodemPacket) : List UInt8 := (packet.bytes.drop 3).take packetPayloadSize
def crcU8 (packet : XmodemPacket) : UInt8 × UInt8 := (packet.bytes.getD 131 0, packet.bytes.getD 132 0)

/-- A static variable starts out as zero. -/
def blank : XmodemPacket := ⟨List.replicate 133 0, by simp⟩

/-- The packet with `src` stored from the byte at `offset` on. -/
def store (packet : XmodemPacket) (offset : Nat) (src : List UInt8) : XmodemPacket :=
  ⟨patch packet.bytes offset src, by rw [patch_length, packet.size]⟩

end XmodemPacket

/-- One step of the first loop of `crc_xmodem`: the accumulator takes in the top bit of the byte. -/
def crcShift (state : UInt32 × UInt8) : UInt32 × UInt8 :=
  let (crc, data) := state
  let crc := crc <<< 1
  let crc := if data &&& 0x80 ≠ 0 then crc ||| 1 else crc
  let crc := if crc &&& 0x10000 ≠ 0 then crc ^^^ poly else crc
  (crc, data <<< 1)

def crcByte (crc : UInt32) (data : UInt8) : UInt32 := (crcShift^[8] (crc, data)).1

/-- One of the sixteen zero bits appended to the message. -/
def crcAppend (crc : UInt32) : UInt32 :=
  if crc &&& 0x8000 ≠ 0 then (crc <<< 1) ^^^ poly else crc <<< 1

def crcOf (data : List UInt8) : UInt16 := (crcAppend^[16] (data.foldl crcByte 0)).toUInt16

def crcXmodem (packet : XmodemPacket) : UInt16 := crcOf packet.data

/-- What the transport does on the serial line. A `fault` is an access outside
a buffer, after which a C program has no defined behaviour. -/
inductive Op where
  | getc
  | putc (ch : UInt8)
  | setTimeout (ms : Nat)
  | fault

/-- `getc` answers `none` on a timeout or an I/O error, which leave the caller's variable alone. -/
@[reducible] def Answer : Op → Type
  | .getc => Option UInt8
  | .putc _ => Unit
  | .setTimeout _ => Unit
  | .fault => Unit

abbrev Io : Signature := ⟨Op, Answer⟩

abbrev Code := Static XmodemPacket Io

def xmodemGetc : Code (Option UInt8) := Static.perform (S := Io) .getc
def xmodemPutc (ch : UInt8) : Code Unit := Static.perform (S := Io) (.putc ch)
def xmodemSetTimeout (ms : Nat) : Code Unit := Static.perform (S := Io) (.setTimeout ms)
def fault {α : Type} : Code α := do
  Static.perform (S := Io) .fault
  Static.halt

section Rules

variable {always : History Io → Prop} {history : History Io} (pktBuf : XmodemPacket)

@[simp] theorem wp_getc (post : Option UInt8 × XmodemPacket → History Io → Prop) :
    wp always (xmodemGetc.run pktBuf) post history ↔ always history ∧ ∀ answer,
      always (history ++ [⟨.getc, answer⟩]) ∧ post (answer, pktBuf) (history ++ [⟨.getc, answer⟩]) := by
  change wp always (.call (S := Io) .getc fun answer => .ret (answer, pktBuf)) post history ↔ _
  simp only [wp_call, wp_ret]

@[simp] theorem wp_putc (ch : UInt8) (post : Unit × XmodemPacket → History Io → Prop) :
    wp always ((xmodemPutc ch).run pktBuf) post history ↔ always history ∧
      always (history ++ [⟨.putc ch, ()⟩]) ∧ post ((), pktBuf) (history ++ [⟨.putc ch, ()⟩]) := by
  change wp always (.call (S := Io) (.putc ch) fun answer => .ret (answer, pktBuf)) post history ↔ _
  simp only [wp_call, wp_ret]
  exact and_congr_right fun _ => ⟨fun holds => holds (), fun holds _ => holds⟩

@[simp] theorem wp_setTimeout (ms : Nat) (post : Unit × XmodemPacket → History Io → Prop) :
    wp always ((xmodemSetTimeout ms).run pktBuf) post history ↔ always history ∧
      always (history ++ [⟨.setTimeout ms, ()⟩]) ∧ post ((), pktBuf) (history ++ [⟨.setTimeout ms, ()⟩]) := by
  change wp always (.call (S := Io) (.setTimeout ms) fun answer => .ret (answer, pktBuf)) post history ↔ _
  simp only [wp_call, wp_ret]
  exact and_congr_right fun _ => ⟨fun holds => holds (), fun holds _ => holds⟩

@[simp] theorem wp_fault {α : Type} (post : α × XmodemPacket → History Io → Prop) :
    wp always ((fault : Code α).run pktBuf) post history ↔
      always history ∧ always (history ++ [⟨.fault, ()⟩]) := by
  change wp always (.call (S := Io) .fault fun _ => .halt) post history ↔ _
  simp only [wp_call, wp_halt]
  exact and_congr_right fun _ => ⟨fun holds => holds (), fun holds _ => holds⟩

end Rules

end DfuUtilQda.Xmodem

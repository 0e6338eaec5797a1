import DfuUtilQda.Xmodem.Packet

/-! The receiving side of XMODEM. -/

namespace DfuUtilQda.Xmodem
open Interaction Machine

/-- The status codes of `xmodem_read_pkt`. -/
inductive Status where
  | soh | eot | dup | can | err
  deriving DecidableEq, Repr

/-- Reads the last `count` bytes of the packet; `false` on a timeout. -/
def readRest : Nat → Code Bool
  | 0 => return true
  | count + 1 => do
    match ← xmodemGetc with
    | none => return false
    | some ch =>
      modify (fun pktBuf => pktBuf.store (132 - count) [ch])
      readRest count

/-- Waits until the other side has stopped sending. -/
def discard : Code Unit :=
  Static.loop (fun _ : Unit => do
    match ← xmodemGetc with
    | some _ => return .inl ()
    | none => return .inr ()) ()

/-- The checksum bytes and the number's complement are those of an undamaged packet. -/
def XmodemPacket.intact (packet : XmodemPacket) : Bool :=
  let crcRecv := (packet.crcU8.1.toUInt16 <<< 8) ||| packet.crcU8.2.toUInt16
  packet.seqNo = ~~~packet.seqNoInv && crcRecv = crcXmodem packet

/-- The checks of `xmodem_read_pkt` on a packet read in full. The numbers are
compared after promotion to `int`, so no packet precedes number 0. -/
def checkPkt (expSeqNo : UInt8) (buf : List UInt8) (offset : Int) (len : Nat) : Code (Status × List UInt8) := do
  let pktBuf ← get
  if pktBuf.intact = false then return (.err, buf)
  else if (pktBuf.seqNo.toNat : Int) = expSeqNo.toNat - 1 then return (.dup, buf)
  else if pktBuf.seqNo ≠ expSeqNo then return (.can, buf)
  else if len < packetPayloadSize then return (.can, buf)
  else match memcpy buf offset pktBuf.data with
    | some buf => return (.soh, buf)
    | none => fault

def xmodemReadPkt (expSeqNo : UInt8) (buf : List UInt8) (offset : Int) (len : Nat) : Code (Status × List UInt8) := do
  match ← xmodemGetc with
  | none => return (.err, buf)
  | some cmd =>
    if cmd = soh then
      let complete ← readRest 132
      if complete then checkPkt expSeqNo buf offset len
      else return (.err, buf)
    else if cmd = eot then return (.eot, buf)
    else
      xmodemSetTimeout timeoutErr
      discard
      xmodemSetTimeout timeoutStd
      return (.err, buf)

/-- The local variables of `xmodem_receive_package`, with the caller's buffer. -/
structure Reception where
  expSeqNo : UInt8
  cmd : UInt8
  nak : UInt8
  errCnt : Nat
  dataCnt : Int
  buf : List UInt8
  bufLen : Nat

def Reception.start (buf : List UInt8) : Reception where
  expSeqNo := 1
  cmd := charC
  nak := charC
  errCnt := 0
  dataCnt := 0
  buf := buf
  bufLen := toSize buf.length

/-- What is left when the loop ends: the return value, the last reply, the buffer. -/
structure Received where
  retv : Int
  cmd : UInt8
  buf : List UInt8

def receiveRound (s : Reception) : Code (Reception ⊕ Received) := do
  if s.errCnt < maxRxErrors then
    xmodemPutc s.cmd
    let (status, buf) ← xmodemReadPkt s.expSeqNo s.buf s.dataCnt s.bufLen
    match status with
    | .soh => return .inl { s with
        buf, nak := Xmodem.nak, cmd := ack, errCnt := 0
        dataCnt := toInt (s.dataCnt + packetPayloadSize)
        bufLen := toSize (s.bufLen - packetPayloadSize)
        expSeqNo := s.expSeqNo + 1 }
    | .dup => return .inl { s with buf, cmd := ack }
    | .eot => return .inr ⟨s.dataCnt, ack, buf⟩
    | .can => return .inr ⟨-1, can, buf⟩
    | .err => return .inl { s with buf, errCnt := s.errCnt + 1, cmd := s.nak }
  else return .inr ⟨-1, s.cmd, s.buf⟩

def xmodemReceivePackage (buf : List UInt8) : Code (Int × List UInt8) := do
  xmodemSetTimeout timeoutStd
  let ended ← Static.loop receiveRound (Reception.start buf)
  xmodemPutc ended.cmd
  return (ended.retv, ended.buf)

end DfuUtilQda.Xmodem

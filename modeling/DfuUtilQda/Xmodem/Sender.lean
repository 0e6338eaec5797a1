import DfuUtilQda.Xmodem.Packet

/-! The transmitting side of XMODEM. -/

namespace DfuUtilQda.Xmodem
open Interaction Machine

/-- The packet buffer as it is sent. Where `data` is short, the payload ends in
whatever the buffer held before. -/
def XmodemPacket.fill (pktBuf : XmodemPacket) (data : List UInt8) (pktNo : UInt8) : XmodemPacket :=
  let pktBuf := pktBuf.store 0 [soh]
  let pktBuf := pktBuf.store 3 data
  let crc := crcXmodem pktBuf
  let pktBuf := pktBuf.store 131 [((crc >>> 8) &&& 0xFF).toUInt8, (crc &&& 0xFF).toUInt8]
  let pktBuf := pktBuf.store 1 [pktNo]
  pktBuf.store 2 [~~~pktNo]

def xmodemSendPkt (data : List UInt8) (pktNo : UInt8) : Code Unit := do
  let pktBuf ← get
  let pktBuf := pktBuf.fill data pktNo
  set pktBuf
  pktBuf.bytes.forM xmodemPutc

/-- The loop of both `_with_retry` functions: send, wait for an ACK, and count down. -/
def sendWithRetry (send : Code Unit) : Nat → Code Int
  | 0 => return -1
  | retransmit + 1 => do
    send
    let answer ← xmodemGetc
    let rsp := answer.getD err
    if rsp = ack then return 0 else sendWithRetry send retransmit

def xmodemSendPktWithRetry (data : List UInt8) (pktNo : UInt8) : Code Int :=
  sendWithRetry (xmodemSendPkt data pktNo) maxRetransmit

def xmodemSendByteWithRetry (cmd : UInt8) : Code Int := sendWithRetry (xmodemPutc cmd) maxRetransmit

/-- The loop that waits for the receiver's 'C'. -/
def awaitStart : Nat → Code Bool
  | 0 => return false
  | retransmit + 1 => do
    let answer ← xmodemGetc
    let rsp := answer.getD err
    if rsp = charC then return true else awaitStart retransmit

/-- One round of the block loop, over the rest of the data and the packet
number. It leaves with the next packet number, or with nothing after a failure. -/
def transmitRound (rest : List UInt8 × UInt8) : Code ((List UInt8 × UInt8) ⊕ Option UInt8) := do
  let (data, pktNo) := rest
  if data.length = 0 then return .inr (some pktNo)
  else
    let mlen := if data.length ≥ packetPayloadSize then packetPayloadSize else data.length
    let status ← xmodemSendPktWithRetry (data.take mlen) pktNo
    if status < 0 then return .inr none
    else return .inl (data.drop mlen, pktNo + 1)

def xmodemTransmitPackage (data : List UInt8) : Code Int := do
  xmodemSetTimeout timeoutStd
  let started ← awaitStart maxRetransmit
  if started then
    let sent ← Static.loop transmitRound (data, 1)
    match sent with
    | none => return -1
    | some pktNo =>
      let status ← xmodemSendByteWithRetry eot
      if status < 0 then return -1
      else return ((pktNo.toNat : Int) - 1) * 128
  else return -1

end DfuUtilQda.Xmodem

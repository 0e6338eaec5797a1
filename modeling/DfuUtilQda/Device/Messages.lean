import DfuUtilQda.Proofs.Requests

/-! The QDA messages as the device's side of the protocol sees them: what it is asked,
what it answers, and the bytes that stand for either. What follows a message never matters. -/

namespace DfuUtilQda.Device
open Machine Qda

def qdaPktStall : UInt32 := 0x4D558004

/-- What a host can ask for, and everything else. -/
inductive Request where
  | reset | devDesc | dfuDesc
  | setAltSetting (alt : UInt8)
  | dnload (block : UInt16) (data : List UInt8)
  | upload (len block : UInt16)
  | getStatus | clrStatus | getState | abort
  | other
  deriving DecidableEq

/-- What a device can answer. What the host has no use for is left open. -/
inductive Reply where
  | ack | stall
  | devDesc (vendor product bcdDevice : UInt16)
  | dfuDesc (transferSize bcdDfuVer : UInt16)
  | upload (data : List UInt8)
  | status (bStatus bState : UInt8)
  | state (bState : UInt8)
  deriving DecidableEq

/-- The message of a request. No message is that of another one. -/
def Request.message : Request → List UInt8
  | .reset => packet qdaPktReset []
  | .devDesc => packet qdaPktDevDescReq []
  | .dfuDesc => packet qdaPktDfuDescReq []
  | .setAltSetting alt => packet qdaPktDfuSetAltSetting [alt]
  | .dnload block data => packet qdaPktDfuDnloadReq (blockPayload (UInt16.ofNat data.length) block data)
  | .upload len block => packet qdaPktDfuUploadReq (blockPayload len block [])
  | .getStatus => packet qdaPktDfuGetstatusReq []
  | .clrStatus => packet qdaPktDfuClrstatus []
  | .getState => packet qdaPktDfuGetstateReq []
  | .abort => packet qdaPktDfuAbort []
  | .other => []

/-- The request that a message begins with. -/
def Request.decode (message : List UInt8) : Request :=
  let type := UInt32.ofNat (leAt message 0 4)
  let len := leAt message 4 2
  let block := UInt16.ofNat (leAt message 6 2)
  if type = qdaPktReset then .reset
  else if type = qdaPktDevDescReq then .devDesc
  else if type = qdaPktDfuDescReq then .dfuDesc
  else if type = qdaPktDfuSetAltSetting then .setAltSetting (message.getD 4 0)
  else if type = qdaPktDfuDnloadReq then if 8 + len ≤ message.length then .dnload block ((message.drop 8).take len) else .other
  else if type = qdaPktDfuUploadReq then .upload (UInt16.ofNat len) block
  else if type = qdaPktDfuGetstatusReq then .getStatus
  else if type = qdaPktDfuClrstatus then .clrStatus
  else if type = qdaPktDfuGetstateReq then .getState
  else if type = qdaPktDfuAbort then .abort
  else .other

/-- The message is one for this reply. -/
def Reply.Encodes (reply : Reply) (message : List UInt8) : Prop :=
  match reply with
  | .ack => message = packet qdaPktAck []
  | .stall => message = packet qdaPktStall []
  | .devDesc vendor product bcdDevice => message = packet qdaPktDevDescResp
      (leBytes 2 vendor.toNat ++ leBytes 2 product.toNat ++ leBytes 2 bcdDevice.toNat)
  | .dfuDesc transferSize bcdDfuVer => ∃ (numAltSettings bmAttributes : UInt8) (detachTimeout : UInt16),
      message = packet qdaPktDfuDescResp ([numAltSettings, bmAttributes] ++ leBytes 2 detachTimeout.toNat ++
        leBytes 2 transferSize.toNat ++ leBytes 2 bcdDfuVer.toNat)
  | .upload data => message = packet qdaPktDfuUploadResp (leBytes 2 data.length ++ data)
  | .status bStatus bState => ∃ pollTimeout : UInt32,
      message = packet qdaPktDfuGetstatusResp (leBytes 4 pollTimeout.toNat ++ [bStatus, bState])
  | .state bState => message = packet qdaPktDfuGetstateResp [bState]

/-- What the host finds in the buffer that a reply has been received in. -/
def Reply.Shows (reply : Reply) (qdaBuf : QdaBuf) : Prop :=
  match reply with
  | .ack => qdaBuf.type = qdaPktAck
  | .stall => qdaBuf.type = qdaPktStall
  | .devDesc vendor product bcdDevice => qdaBuf.type = qdaPktDevDescResp ∧
      qdaBuf.u16 4 = vendor ∧ qdaBuf.u16 6 = product ∧ qdaBuf.u16 8 = bcdDevice
  | .dfuDesc transferSize bcdDfuVer => qdaBuf.type = qdaPktDfuDescResp ∧ qdaBuf.u16 8 = transferSize ∧ qdaBuf.u16 10 = bcdDfuVer
  | .upload data => qdaBuf.type = qdaPktDfuUploadResp ∧ qdaBuf.u16 4 = UInt16.ofNat data.length ∧
      (qdaBuf.pointer 6).load data.length = some data
  | .status bStatus bState => qdaBuf.type = qdaPktDfuGetstatusResp ∧ qdaBuf.u8 8 = bStatus ∧ qdaBuf.u8 9 = bState
  | .state bState => qdaBuf.type = qdaPktDfuGetstateResp ∧ qdaBuf.u8 4 = bState

/-- The type of the packet. -/
def Reply.type : Reply → UInt32
  | .ack => qdaPktAck
  | .stall => qdaPktStall
  | .devDesc _ _ _ => qdaPktDevDescResp
  | .dfuDesc _ _ => qdaPktDfuDescResp
  | .upload _ => qdaPktDfuUploadResp
  | .status _ _ => qdaPktDfuGetstatusResp
  | .state _ => qdaPktDfuGetstateResp

/-- Requests and replies whose fields can say how long their data is. -/
def Request.Fits : Request → Prop
  | .dnload _ data => data.length < 2 ^ 16
  | .other => False
  | _ => True

def Reply.Fits : Reply → Prop
  | .upload data => 6 + data.length ≤ qdaBufSize
  | _ => True

section Fields

theorem type_at (type : UInt32) (payload padding : List UInt8) :
    UInt32.ofNat (leAt (packet type payload ++ padding) 0 4) = type := by
  rw [packet, List.append_assoc, leAt, List.drop_zero, List.take_left' (leBytes_length 4 _), leNat_leBytes_of_lt type.toNat_lt,
    UInt32.ofNat_toNat]

theorem field_at {front rest : List UInt8} {offset count value : Nat} (there : offset = front.length) (fits : value < 256 ^ count) :
    leAt (front ++ (leBytes count value ++ rest)) offset count = value := by
  rw [there, leAt_append front (leBytes count value) rest count (leBytes_length count _), leNat_leBytes_of_lt fits]

variable (type : UInt32) (len block : UInt16) (data padding : List UInt8)

/-- The fields of a transfer request, and what is behind them. -/
theorem block_fields : leAt (packet type (blockPayload len block data) ++ padding) 4 2 = len.toNat ∧
    leAt (packet type (blockPayload len block data) ++ padding) 6 2 = block.toNat ∧
    (packet type (blockPayload len block data) ++ padding).drop 8 = data ++ padding := by
  have first : packet type (blockPayload len block data) ++ padding =
      leBytes 4 type.toNat ++ (leBytes 2 len.toNat ++ (leBytes 2 block.toNat ++ (data ++ padding))) := by
    simp only [packet, blockPayload, List.append_assoc]
  have second : packet type (blockPayload len block data) ++ padding =
      (leBytes 4 type.toNat ++ leBytes 2 len.toNat) ++ (leBytes 2 block.toNat ++ (data ++ padding)) := by
    rw [first, List.append_assoc]
  have third : packet type (blockPayload len block data) ++ padding =
      (leBytes 4 type.toNat ++ leBytes 2 len.toNat ++ leBytes 2 block.toNat) ++ (data ++ padding) := by
    rw [second, List.append_assoc _ _ (data ++ padding)]
  refine ⟨?_, ?_, ?_⟩
  · rw [first]
    exact field_at (by simp) len.toNat_lt
  · rw [second]
    exact field_at (by simp) block.toNat_lt
  · rw [third]
    exact List.drop_left' (by simp)

end Fields

/-- Every request is understood, and whatever follows it makes no difference. -/
theorem Request.decode_message (request : Request) (fits : request.Fits) (padding : List UInt8) :
    Request.decode (request.message ++ padding) = request := by
  cases request with
  | other => exact fits.elim
  | dnload block data =>
    obtain ⟨len, number, behind⟩ := block_fields qdaPktDfuDnloadReq (UInt16.ofNat data.length) block data padding
    have size : (UInt16.ofNat data.length).toNat = data.length := UInt16.toNat_ofNat_of_lt' fits
    have room : 8 + data.length ≤ (packet qdaPktDfuDnloadReq (blockPayload (UInt16.ofNat data.length) block data) ++ padding).length := by
      simp only [List.length_append, packet_length, blockPayload_length]
      omega
    rw [Request.decode, Request.message, type_at, len, number, behind, size, if_pos room, List.take_left, UInt16.ofNat_toNat]
    rfl
  | upload len block =>
    obtain ⟨size, number, _⟩ := block_fields qdaPktDfuUploadReq len block [] padding
    rw [Request.decode, Request.message, type_at, size, number, UInt16.ofNat_toNat, UInt16.ofNat_toNat]
    rfl
  | _ =>
    rw [Request.decode, Request.message, type_at]
    rfl

theorem Request.decode_alone (request : Request) (fits : request.Fits) : Request.decode request.message = request := by
  have decoded := request.decode_message fits []
  rwa [List.append_nil] at decoded

section Blocks

variable {len block : UInt16} {bytes : List UInt8} (count : bytes.length = len.toNat)
include count

/-- The request for a block whose length is given as it is. -/
theorem dnload_fits : (Request.dnload block bytes).Fits := by
  rw [Request.Fits, count]
  exact len.toNat_lt

theorem dnload_message : (Request.dnload block bytes).message = packet qdaPktDfuDnloadReq (blockPayload len block bytes) := by
  rw [Request.message, count, UInt16.ofNat_toNat]

theorem dnload_short (room : len.toNat ≤ qdaBufSize - 8) : (Request.dnload block bytes).message.length ≤ qdaBufSize := by
  have size : qdaBufSize = 8192 := rfl
  rw [dnload_message count, packet_length, blockPayload_length]
  omega

end Blocks

section Received

variable {qdaBuf : QdaBuf} {rest : List UInt8}

theorem type_shown {type : UInt32} {payload : List UInt8} (begins : qdaBuf.bytes = packet type payload ++ rest) :
    qdaBuf.type = type := by
  rw [QdaBuf.type, QdaBuf.u32, begins, type_at]

theorem field_shown {value : UInt16} (front rest : List UInt8) (begins : qdaBuf.bytes = front ++ (leBytes 2 value.toNat ++ rest)) :
    qdaBuf.u16 front.length = value := by
  rw [QdaBuf.u16, begins, field_at rfl value.toNat_lt, UInt16.ofNat_toNat]

theorem byte_shown {byte : UInt8} (front rest : List UInt8) (begins : qdaBuf.bytes = front ++ (byte :: rest)) :
    qdaBuf.u8 front.length = byte := by
  rw [QdaBuf.u8, begins]
  simp

end Received

theorem Reply.encodable (reply : Reply) : ∃ message, reply.Encodes message := by
  cases reply with
  | dfuDesc => exact ⟨_, 0, 0, 0, rfl⟩
  | status => exact ⟨_, 0, rfl⟩
  | _ => exact ⟨_, rfl⟩

theorem Reply.Shows.type {reply : Reply} {qdaBuf : QdaBuf} (shows_ : reply.Shows qdaBuf) : qdaBuf.type = reply.type := by
  cases reply with
  | ack | stall => exact shows_
  | _ => exact shows_.1

theorem Reply.Encodes.length_le {reply : Reply} {message : List UInt8} (encodes : reply.Encodes message) (fits : reply.Fits) :
    message.length ≤ qdaBufSize := by
  have size : qdaBufSize = 8192 := rfl
  cases reply with
  | ack | stall | devDesc | state =>
    obtain rfl := encodes
    simp [size]
  | upload data =>
    obtain rfl := encodes
    have fits : 6 + data.length ≤ qdaBufSize := fits
    simp only [packet_length, List.length_append, leBytes_length]
    omega
  | dfuDesc =>
    obtain ⟨_, _, _, rfl⟩ := encodes
    simp [size]
  | status =>
    obtain ⟨_, rfl⟩ := encodes
    simp [size]

/-- What the host reads is what the device has answered. -/
theorem Reply.shows {reply : Reply} (fits : reply.Fits) {message : List UInt8} (encodes : reply.Encodes message) {qdaBuf : QdaBuf}
    {rest : List UInt8} (begins : qdaBuf.bytes = message ++ rest) : reply.Shows qdaBuf := by
  cases reply with
  | ack | stall =>
    obtain rfl := encodes
    exact type_shown begins
  | devDesc vendor product bcdDevice =>
    obtain rfl := encodes
    have first := @field_shown qdaBuf vendor (leBytes 4 qdaPktDevDescResp.toNat)
      (leBytes 2 product.toNat ++ (leBytes 2 bcdDevice.toNat ++ rest)) (by rw [begins]; simp only [packet, List.append_assoc])
    have second := @field_shown qdaBuf product (leBytes 4 qdaPktDevDescResp.toNat ++ leBytes 2 vendor.toNat)
      (leBytes 2 bcdDevice.toNat ++ rest) (by rw [begins]; simp only [packet, List.append_assoc])
    have third := @field_shown qdaBuf bcdDevice (leBytes 4 qdaPktDevDescResp.toNat ++ leBytes 2 vendor.toNat ++ leBytes 2 product.toNat)
      rest (by rw [begins]; simp only [packet, List.append_assoc])
    exact ⟨type_shown begins, first, second, third⟩
  | dfuDesc transferSize bcdDfuVer =>
    obtain ⟨alts, attributes, timeout, rfl⟩ := encodes
    have first := @field_shown qdaBuf transferSize (leBytes 4 qdaPktDfuDescResp.toNat ++ [alts, attributes] ++ leBytes 2 timeout.toNat)
      (leBytes 2 bcdDfuVer.toNat ++ rest) (by rw [begins]; simp only [packet, List.append_assoc])
    have second := @field_shown qdaBuf bcdDfuVer
      (leBytes 4 qdaPktDfuDescResp.toNat ++ [alts, attributes] ++ leBytes 2 timeout.toNat ++ leBytes 2 transferSize.toNat)
      rest (by rw [begins]; simp only [packet, List.append_assoc])
    exact ⟨type_shown begins, first, second⟩
  | upload data =>
    obtain rfl := encodes
    have room : 6 + data.length ≤ qdaBuf.bytes.length := by rwa [qdaBuf.size]
    have size : (UInt16.ofNat data.length).toNat = data.length := UInt16.toNat_ofNat_of_lt' (by
      have fits : 6 + data.length ≤ 8192 := fits
      exact Nat.lt_of_le_of_lt (Nat.le_of_add_left_le fits) (by decide))
    have first := @field_shown qdaBuf (UInt16.ofNat data.length) (leBytes 4 qdaPktDfuUploadResp.toNat) (data ++ rest)
      (by rw [begins, size]; simp only [packet, List.append_assoc])
    refine ⟨type_shown begins, first, ?_⟩
    have parts : qdaBuf.bytes = (leBytes 4 qdaPktDfuUploadResp.toNat ++ leBytes 2 data.length) ++ (data ++ rest) := by
      rw [begins]
      simp only [packet, List.append_assoc]
    have load := Pointer.load_inside qdaBuf.bytes 6 data.length room
    rw [parts, List.drop_left' (by simp), List.take_left, ← parts] at load
    exact load
  | status bStatus bState =>
    obtain ⟨timeout, rfl⟩ := encodes
    have first := @byte_shown qdaBuf bStatus (leBytes 4 qdaPktDfuGetstatusResp.toNat ++ leBytes 4 timeout.toNat) (bState :: rest)
      (by rw [begins]; simp only [packet, List.append_assoc, List.cons_append, List.nil_append])
    have second := @byte_shown qdaBuf bState (leBytes 4 qdaPktDfuGetstatusResp.toNat ++ leBytes 4 timeout.toNat ++ [bStatus]) rest
      (by rw [begins]; simp only [packet, List.append_assoc, List.cons_append, List.nil_append])
    exact ⟨type_shown begins, first, second⟩
  | state bState =>
    obtain rfl := encodes
    have first := @byte_shown qdaBuf bState (leBytes 4 qdaPktDfuGetstateResp.toNat) rest
      (by rw [begins]; simp only [packet, List.append_assoc, List.cons_append, List.nil_append])
    exact ⟨type_shown begins, first⟩

end DfuUtilQda.Device

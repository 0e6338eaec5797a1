import DfuUtilQda.Machine.LittleEndian
import DfuUtilQda.Machine.Memory

/-! QDA packets in the one static buffer that carries requests and responses.
All fields are little-endian and packed, so the host reads and writes them in place. -/

namespace DfuUtilQda.Qda
open Machine

/-! Host requests -/
def qdaPktReset : UInt32 := 0x4D550000
def qdaPktDevDescReq : UInt32 := 0x4D550005
def qdaPktDfuDescReq : UInt32 := 0x4D5501FF
def qdaPktDfuSetAltSetting : UInt32 := 0x4D5501FE
def qdaPktDfuDnloadReq : UInt32 := 0x4D550101
def qdaPktDfuUploadReq : UInt32 := 0x4D550102
def qdaPktDfuGetstatusReq : UInt32 := 0x4D550103
def qdaPktDfuClrstatus : UInt32 := 0x4D550104
def qdaPktDfuGetstateReq : UInt32 := 0x4D550105
def qdaPktDfuAbort : UInt32 := 0x4D550106

/-! Device responses -/
def qdaPktAck : UInt32 := 0x4D558003
def qdaPktDevDescResp : UInt32 := 0x4D558005
def qdaPktDfuDescResp : UInt32 := 0x4D5581FF
def qdaPktDfuUploadResp : UInt32 := 0x4D558102
def qdaPktDfuGetstatusResp : UInt32 := 0x4D558103
def qdaPktDfuGetstateResp : UInt32 := 0x4D558105

def qdaBufSize : Nat := 8192

/-- The static `qda_buf`. -/
structure QdaBuf where
  bytes : List UInt8
  size : bytes.length = qdaBufSize

namespace QdaBuf

/-- A static variable starts out as zero. -/
def blank : QdaBuf := ⟨List.replicate qdaBufSize 0, List.length_replicate⟩

def store (qdaBuf : QdaBuf) (offset : Nat) (src : List UInt8) : QdaBuf :=
  ⟨patch qdaBuf.bytes offset src, by rw [patch_length, qdaBuf.size]⟩

def store16 (qdaBuf : QdaBuf) (offset : Nat) (value : UInt16) : QdaBuf := qdaBuf.store offset (leBytes 2 value.toNat)
def store32 (qdaBuf : QdaBuf) (offset : Nat) (value : UInt32) : QdaBuf := qdaBuf.store offset (leBytes 4 value.toNat)

def u8 (qdaBuf : QdaBuf) (offset : Nat) : UInt8 := qdaBuf.bytes.getD offset 0
def u16 (qdaBuf : QdaBuf) (offset : Nat) : UInt16 := UInt16.ofNat (leAt qdaBuf.bytes offset 2)
def u32 (qdaBuf : QdaBuf) (offset : Nat) : UInt32 := UInt32.ofNat (leAt qdaBuf.bytes offset 4)

/-- `type` of `qda_pkt_t`; the payload begins behind it, at 4. -/
def type (qdaBuf : QdaBuf) : UInt32 := qdaBuf.u32 0

/-- A pointer into the buffer. -/
def pointer (qdaBuf : QdaBuf) (offset : Nat) : Pointer := ⟨qdaBuf.bytes, offset⟩

theorem u16_toNat (qdaBuf : QdaBuf) (offset : Nat) : (qdaBuf.u16 offset).toNat = leAt qdaBuf.bytes offset 2 :=
  UInt16.toNat_ofNat_of_lt' (leAt_lt qdaBuf.bytes offset 2)

theorem ext_bytes {first second : QdaBuf} (same : first.bytes = second.bytes) : first = second := by
  obtain ⟨_, _⟩ := first
  obtain ⟨_, _⟩ := second
  cases same
  rfl

theorem store_behind (qdaBuf : QdaBuf) (first second : List UInt8) (offset : Nat) (behind : offset = first.length) :
    (qdaBuf.store 0 first).store offset second = qdaBuf.store 0 (first ++ second) := by
  apply ext_bytes
  have whole := patch_behind qdaBuf.bytes first second 0
  rw [Nat.zero_add, ← behind] at whole
  exact whole

theorem store_eq (qdaBuf : QdaBuf) (packet : List UInt8) (fits : packet.length ≤ qdaBufSize) :
    (qdaBuf.store 0 packet).bytes = packet ++ qdaBuf.bytes.drop packet.length :=
  patch_zero _ _ (by rw [qdaBuf.size]; exact fits)

theorem take_store (qdaBuf : QdaBuf) (packet : List UInt8) (fits : packet.length ≤ qdaBufSize) :
    (qdaBuf.store 0 packet).bytes.take packet.length = packet := by
  rw [store_eq _ _ fits, List.take_left]

/-- A field that lies within what the buffer begins with. -/
theorem leAt_front {qdaBuf : QdaBuf} {front rest : List UInt8} (begins : qdaBuf.bytes = front ++ rest) (offset count : Nat)
    (inside : offset + count ≤ front.length) : leAt qdaBuf.bytes offset count = leAt front offset count := by
  rw [begins, leAt_left _ _ _ _ inside]

theorem type_store (qdaBuf : QdaBuf) (type : UInt32) (payload : List UInt8)
    (fits : (leBytes 4 type.toNat ++ payload).length ≤ qdaBufSize) :
    (qdaBuf.store 0 (leBytes 4 type.toNat ++ payload)).type = type := by
  rw [QdaBuf.type, u32, store_eq _ _ fits, List.append_assoc, leAt, List.drop_zero,
    List.take_left' (leBytes_length 4 _), leNat_leBytes_of_lt type.toNat_lt, UInt32.ofNat_toNat]

end QdaBuf

end DfuUtilQda.Qda

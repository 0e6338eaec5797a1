import DfuUtilQda.Proofs.Agreement
import DfuUtilQda.Proofs.DeviceRuns
import DfuUtilQda.Proofs.ReceptionSafety
import DfuUtilQda.Proofs.SenderDiscipline
import DfuUtilQda.Qda.Wire

/-! Messages of any length over a transport of whole blocks. The padding of the last block comes behind
all that a message's own fields point to, in requests and in responses. -/

namespace DfuUtilQda.Host
open Interaction Machine Qda Xmodem

/-- The message with padding behind it, up to whole blocks. -/
def Extends (message padded : List UInt8) : Prop :=
  ∃ padding, padded = message ++ padding ∧ padded.length = packetPayloadSize * blockCount message

/-- What a device reads off a message: a request to take this block. -/
structure ReadsDnload (message : List UInt8) (len transaction : UInt16) (data : List UInt8) : Prop where
  type : leAt message 0 4 = qdaPktDfuDnloadReq.toNat
  dataLen : leAt message 4 2 = len.toNat
  blockNum : leAt message 6 2 = transaction.toNat
  data : (message.drop 8).take len.toNat = data

/-- A response to a request for a block. -/
def uploadResponse (bytes : List UInt8) : List UInt8 := packet qdaPktDfuUploadResp (leBytes 2 bytes.length ++ bytes)

/-- The program hands over this message, whatever the transport makes of it, and no other. -/
structure Hands {α : Type} (program : Program Calls α) (message : List UInt8) : Prop where
  does : ∀ rc : Int, ∃ rest, Runs program [⟨.send message, rc⟩] rest
  only : ∀ now rest, Runs program now rest → now = [] ∨ ∃ (rc : Int) (later : History Calls), now = ⟨.send message, rc⟩ :: later ∧
    ∀ event ∈ later, ∀ other, event.op ≠ .send other

section Padding

variable {message padded : List UInt8}

/-- What fits the buffer fits it with its padding, for the buffer holds whole blocks. -/
theorem Extends.fits (extends_ : Extends message padded) (fits : message.length ≤ qdaBufSize) : padded.length ≤ qdaBufSize := by
  obtain ⟨_, _, length⟩ := extends_
  simp only [length, blockCount, packetPayloadSize, qdaBufSize] at fits ⊢
  omega

theorem Extends.dnload {len transaction : UInt16} {data : List UInt8} (count : data.length = len.toNat)
    (extends_ : Extends (dnloadRequest len transaction data) padded) : ReadsDnload padded len transaction data := by
  obtain ⟨padding, rfl, _⟩ := extends_
  have layout : dnloadRequest len transaction data ++ padding = leBytes 4 qdaPktDfuDnloadReq.toNat ++
      (leBytes 2 len.toNat ++ (leBytes 2 transaction.toNat ++ (data ++ padding))) := by
    simp only [dnloadRequest, packet, blockPayload, List.append_assoc]
  rw [layout]
  refine ⟨?_, ?_, ?_, ?_⟩
  · have field := leAt_append [] (leBytes 4 qdaPktDfuDnloadReq.toNat)
      (leBytes 2 len.toNat ++ (leBytes 2 transaction.toNat ++ (data ++ padding))) 4 (leBytes_length 4 _)
    rwa [List.nil_append, List.length_nil, leNat_leBytes_of_lt qdaPktDfuDnloadReq.toNat_lt] at field
  · have field := leAt_append (leBytes 4 qdaPktDfuDnloadReq.toNat) (leBytes 2 len.toNat)
      (leBytes 2 transaction.toNat ++ (data ++ padding)) 2 (leBytes_length 2 _)
    rwa [leBytes_length, leNat_leBytes_of_lt len.toNat_lt] at field
  · have field := leAt_append (leBytes 4 qdaPktDfuDnloadReq.toNat ++ leBytes 2 len.toNat) (leBytes 2 transaction.toNat)
      (data ++ padding) 2 (leBytes_length 2 _)
    rwa [List.length_append, leBytes_length, leBytes_length, leNat_leBytes_of_lt transaction.toNat_lt, List.append_assoc] at field
  · have header : (leBytes 4 qdaPktDfuDnloadReq.toNat ++ (leBytes 2 len.toNat ++ leBytes 2 transaction.toNat)).length = 8 := by
      simp only [List.length_append, leBytes_length]
    rw [← List.append_assoc (leBytes 2 len.toNat), ← List.append_assoc, ← header, List.drop_left, ← count, List.take_left]

theorem transmission_extends {pktBuf kept : XmodemPacket} {now : History Io} {rc : Int}
    (run : Runs ((dfuUtilQdaSend message).run pktBuf) now (.ret (rc, kept))) (whole : rc ≠ -1) : ∃ starts sendings ends,
      now = callHistory starts sendings ends ∧ Extends message (payloads (sendings.map Sending.frame)) := by
  have transmits := (runs_transmitPackage _ _ _ _ _).mp run
  obtain ⟨starts, sendings, ends, same, disciplined⟩ := transmits.disciplined
  have heard : some Xmodem.ack ∈ ends := by
    by_contra unheard
    exact whole (disciplined.failure unheard)
  obtain ⟨_, count, _⟩ := disciplined.ending.mp (List.ne_nil_of_mem heard)
  have length : (payloads (sendings.map Sending.frame)).length = packetPayloadSize * blockCount message := by
    rw [payloads_length, List.length_map, count]
  have front : (payloads (sendings.map Sending.frame)).take message.length = message := by
    have blocks := @payloads_blocks message (sendings.map Sending.frame) ?_
    · rw [blocks, List.length_map, count]
      apply List.take_of_length_le
      simp only [blockCount, packetPayloadSize]
      omega
    · intro index frame found
      rw [List.getElem?_map] at found
      obtain ⟨sending, place, rfl⟩ := Option.map_eq_some_iff.mp found
      exact (disciplined.frames index sending place).1.payload
  refine ⟨starts, sendings, ends, same, (payloads (sendings.map Sending.frame)).drop message.length, ?_, length⟩
  calc payloads (sendings.map Sending.frame)
      = (payloads (sendings.map Sending.frame)).take message.length ++ (payloads (sendings.map Sending.frame)).drop message.length :=
        (List.take_append_drop _ _).symm
    _ = _ := by rw [front]

theorem reception_stores {asked after : QdaBuf} {pktBuf kept : XmodemPacket} {now : History Io} {received : Nat}
    (run : Runs ((dfuUtilQdaReceive asked).run pktBuf) now (.ret ((received, after), kept))) (whole : received ≠ 0) :
    ∃ readings taken, Session qdaBufSize readings taken ∧ outcomes now = readings.flatMap Reading.heard ∧
      received = packetPayloadSize * taken.length ∧ ∃ rest, after.bytes = payloads taken ++ rest := by
  have short : asked.bytes.length < 2 ^ 31 := by rw [asked.size]; decide
  obtain ⟨⟨retv, data⟩, held, early, late, receives, done, rfl⟩ := (runs_seq _ _ _ _ _).mp run
  obtain ⟨rfl, same⟩ := (runs_pure _ _).mp done
  cases same
  obtain ⟨readings, taken, session, heard, stored, ends⟩ := reception_returns short receives
  rw [asked.size] at session
  obtain ⟨_, count⟩ | ⟨_, failed⟩ := ends
  · have fits := session.fits
    have length : data.length = qdaBufSize := by
      rw [stored, contents_length (by rw [asked.size]; exact fits), asked.size]
    refine ⟨readings, taken, session, by rwa [List.append_nil], ?_, asked.bytes.drop (packetPayloadSize * taken.length), ?_⟩
    · rw [if_neg (by omega), count]
      exact toSize_nat (by simp only [qdaBufSize] at fits; omega)
    · rw [QdaBuf.store_eq _ _ (Nat.le_of_eq length), length, ← asked.size, List.drop_length, List.append_nil, stored, contents]
  · exact absurd (if_pos failed) whole

end Padding

section Calls

variable {qdaBuf after : QdaBuf} {request : List UInt8} {expected : UInt32} {α : Type} {rest : Bool → Host.Code α}

theorem asked_tree (fits : request.length ≤ qdaBufSize) : (ask qdaConf request expected >>= rest).run qdaBuf =
    .call (S := Calls) (.send request) fun rc =>
      if rc < 0 then (rest false).run (qdaBuf.store 0 request)
      else .call (S := Calls) (.receive (qdaBuf.store 0 request)) fun answer =>
        (rest (decide (answer.2.type = expected))).run answer.2 := by
  rw [StateT.run_bind, ask_tree _ _ _ fits]
  change Program.call (S := Calls) (.send request) _ = _
  congr 1
  funext rc
  dsimp only
  by_cases refused : rc < 0
  · rw [if_pos refused, if_pos refused]
    rfl
  · rw [if_neg refused, if_neg refused]
    rfl

theorem hands_asked (fits : request.length ≤ qdaBufSize) (ends : ∀ ok held, ∃ result, (rest ok).run held = .ret result) :
    Hands ((ask qdaConf request expected >>= rest).run qdaBuf) request := by
  rw [asked_tree fits]
  constructor
  · exact fun rc => ⟨_, .call (.here _)⟩
  · intro now final run
    cases run with
    | here => exact .inl rfl
    | @call _ _ rc later _ run =>
      refine .inr ⟨rc, later, rfl, ?_⟩
      dsimp only at run
      by_cases refused : rc < 0
      · rw [if_pos refused] at run
        obtain ⟨result, same⟩ := ends false (qdaBuf.store 0 request)
        rw [same] at run
        cases run
        simp
      · rw [if_neg refused] at run
        cases run with
        | here => simp
        | @call _ _ answer later _ run =>
          obtain ⟨result, same⟩ := ends (decide (answer.2.type = expected)) answer.2
          dsimp only at run
          rw [same] at run
          cases run
          simp

theorem runs_answered {rc : Int} {received : Nat} {final : Program Calls (α × QdaBuf)} (fits : request.length ≤ qdaBufSize)
    (accepted : 0 ≤ rc) : Runs ((ask qdaConf request expected >>= rest).run qdaBuf)
      [⟨.send request, rc⟩, ⟨.receive (qdaBuf.store 0 request), (received, after)⟩] final ↔
      Runs ((rest (decide (after.type = expected))).run after) [] final := by
  rw [asked_tree fits]
  constructor
  · intro run
    cases run with
    | call run =>
      dsimp only at run
      rw [if_neg (Int.not_lt.mpr accepted)] at run
      cases run with
      | call run => exact run
  · intro run
    refine .call ?_
    dsimp only
    rw [if_neg (Int.not_lt.mpr accepted)]
    exact .call run

theorem runs_ret_iff {result : α} {final : Program Calls α} : Runs (.ret result) [] final ↔ final = .ret result := by
  constructor
  · intro run
    cases run
    rfl
  · rintro rfl
    exact .here _

end Calls

/-- A request for a block that was accepted, and answered with this, comes to this end and no other. -/
def UploadEnds (len transaction : UInt16) (data : List UInt8) (qdaBuf after : QdaBuf) (result : Int × List UInt8) : Prop :=
  ∀ (rc : Int) (received : Nat) final, 0 ≤ rc → (Runs ((qdaDfuUpload qdaConf len transaction data).run qdaBuf)
    [⟨.send (uploadRequest len transaction), rc⟩, ⟨.receive (qdaBuf.store 0 (uploadRequest len transaction)), (received, after)⟩]
    final ↔ final = .ret (result, after))

section Upload

variable {len transaction : UInt16} {data bytes padded rest : List UInt8} {qdaBuf after : QdaBuf}

theorem uploadResponse_fields (fits : 6 + bytes.length ≤ qdaBufSize) (extends_ : Extends (uploadResponse bytes) padded)
    (stored : after.bytes = padded ++ rest) : after.type = qdaPktDfuUploadResp ∧ (after.u16 4).toNat = bytes.length ∧
      (after.pointer 6).load bytes.length = some bytes := by
  obtain ⟨padding, rfl, _⟩ := extends_
  have size : qdaBufSize = 8192 := rfl
  have layout : after.bytes = leBytes 4 qdaPktDfuUploadResp.toNat ++ (leBytes 2 bytes.length ++ (bytes ++ (padding ++ rest))) := by
    rw [stored, uploadResponse, packet]
    simp only [List.append_assoc]
  refine ⟨?_, ?_, ?_⟩
  · have field := leAt_append [] (leBytes 4 qdaPktDfuUploadResp.toNat) (leBytes 2 bytes.length ++ (bytes ++ (padding ++ rest))) 4
      (leBytes_length 4 _)
    rw [List.nil_append, List.length_nil, leNat_leBytes_of_lt qdaPktDfuUploadResp.toNat_lt, ← layout] at field
    rw [QdaBuf.type, QdaBuf.u32, field, UInt32.ofNat_toNat]
  · have field := leAt_append (leBytes 4 qdaPktDfuUploadResp.toNat) (leBytes 2 bytes.length) (bytes ++ (padding ++ rest)) 2
      (leBytes_length 2 _)
    rw [leBytes_length, leNat_leBytes_of_lt (by omega), ← layout] at field
    rw [QdaBuf.u16, field]
    exact UInt16.toNat_ofNat_of_lt' (by change bytes.length < 65536; omega)
  · have header : (leBytes 4 qdaPktDfuUploadResp.toNat ++ leBytes 2 bytes.length).length = 6 := by
      simp only [List.length_append, leBytes_length]
    have whole := after.size
    rw [QdaBuf.pointer, Pointer.load_inside _ 6 _ (by omega), layout, ← List.append_assoc, ← header, List.drop_left, List.take_left]

theorem upload_copies (room : len.toNat ≤ data.length) (few : bytes.length ≤ len.toNat) (fits : 6 + bytes.length ≤ qdaBufSize)
    (extends_ : Extends (uploadResponse bytes) padded) (stored : after.bytes = padded ++ rest) :
    UploadEnds len transaction data qdaBuf after (bytes.length, bytes ++ data.drop bytes.length) := by
  intro rc received final accepted
  obtain ⟨typed, count, loaded⟩ := uploadResponse_fields fits extends_ stored
  have copied : memcpy data 0 bytes = some (bytes ++ data.drop bytes.length) := by
    rw [memcpy, if_pos (by omega), Int.toNat_zero, patch_zero _ _ (by omega)]
  rw [qdaDfuUpload, ask_block]
  refine (runs_answered (by simp [qdaBufSize]) accepted).trans ?_
  rw [typed, decide_eq_true rfl, if_pos rfl, StateT.run_bind, StateT.run_get, pure_bind, count]
  simp only [if_neg (Nat.not_lt.mpr few), loaded, copied]
  exact runs_ret_iff

theorem upload_refuses (other : after.type ≠ qdaPktDfuUploadResp ∨ len.toNat < (after.u16 4).toNat) :
    UploadEnds len transaction data qdaBuf after (-1, data) := by
  intro rc received final accepted
  rw [qdaDfuUpload, ask_block]
  refine (runs_answered (by simp [qdaBufSize]) accepted).trans ?_
  by_cases typed : after.type = qdaPktDfuUploadResp
  · obtain different | long := other
    · exact absurd typed different
    · rw [typed, decide_eq_true rfl, if_pos rfl, StateT.run_bind, StateT.run_get, pure_bind]
      simp only [if_pos long]
      exact runs_ret_iff
  · rw [decide_eq_false typed, if_neg (by simp)]
    exact runs_ret_iff

end Upload

section Download

variable {len transaction : UInt16} {data : Pointer} {bytes : List UInt8} {qdaBuf : QdaBuf}

theorem download_hands (short : len.toNat ≤ 8184) (loaded : data.load len.toNat = some bytes) :
    Hands ((qdaDfuDownload qdaConf len transaction data).run qdaBuf) (dnloadRequest len transaction bytes) := by
  have size : qdaBufSize = 8192 := rfl
  have count := Pointer.load_length loaded
  have fits : (dnloadRequest len transaction bytes).length ≤ qdaBufSize := by
    simp only [dnloadRequest, packet_length, blockPayload_length]
    omega
  rw [qdaDfuDownload_eq, if_neg (by omega), loaded]
  apply hands_asked fits
  intro ok held
  cases ok with
  | false => exact ⟨_, rfl⟩
  | true => exact ⟨_, rfl⟩

theorem download_refuses (long : 8184 < len.toNat) {now : History Calls} {final : Program Calls (Int × QdaBuf)}
    (run : Runs ((qdaDfuDownload qdaConf len transaction data).run qdaBuf) now final) :
    now = [] ∧ ∃ held, final = .ret (-1, held) := by
  have size : qdaBufSize = 8192 := rfl
  rw [qdaDfuDownload_eq, if_pos (by omega)] at run
  cases run with
  | here => exact ⟨rfl, _, rfl⟩

end Download

/-- Requests and responses of any length are read as what they are from behind whole blocks, and what cannot be one
is neither sent nor copied. -/
theorem messages_survive_padding (len transaction : UInt16) (qdaBuf : QdaBuf) :
    (∀ (data : Pointer) bytes, len.toNat ≤ 8184 → data.load len.toNat = some bytes → ∃ message,
      Hands ((qdaDfuDownload qdaConf len transaction data).run qdaBuf) message ∧
      (∀ padded, Extends message padded → padded.length ≤ qdaBufSize ∧ ReadsDnload padded len transaction bytes) ∧
      ∀ pktBuf now rc kept, Runs ((dfuUtilQdaSend message).run pktBuf) now (.ret (rc, kept)) → rc ≠ -1 →
        ∃ starts sendings ends, now = callHistory starts sendings ends ∧
          Extends message (payloads (sendings.map Sending.frame))) ∧
    (∀ data : Pointer, 8184 < len.toNat → ∀ now final,
      Runs ((qdaDfuDownload qdaConf len transaction data).run qdaBuf) now final → now = [] ∧ ∃ held, final = .ret (-1, held)) ∧
    (∀ (data : List UInt8) (after : QdaBuf),
      (∀ bytes padded rest, len.toNat ≤ data.length → bytes.length ≤ len.toNat → 6 + bytes.length ≤ qdaBufSize →
        Extends (uploadResponse bytes) padded → after.bytes = padded ++ rest →
        UploadEnds len transaction data qdaBuf after (bytes.length, bytes ++ data.drop bytes.length)) ∧
      (after.type ≠ qdaPktDfuUploadResp ∨ len.toNat < (after.u16 4).toNat →
        UploadEnds len transaction data qdaBuf after (-1, data))) ∧
    ∀ (asked after : QdaBuf) pktBuf now received kept,
      Runs ((dfuUtilQdaReceive asked).run pktBuf) now (.ret ((received, after), kept)) → received ≠ 0 →
      ∃ readings taken, Session qdaBufSize readings taken ∧ outcomes now = readings.flatMap Reading.heard ∧
        received = packetPayloadSize * taken.length ∧ ∃ rest, after.bytes = payloads taken ++ rest := by
  refine ⟨?_, ?_, ?_, ?_⟩
  · intro data bytes short loaded
    have size : qdaBufSize = 8192 := rfl
    have count := Pointer.load_length loaded
    have fits : (dnloadRequest len transaction bytes).length ≤ qdaBufSize := by
      simp only [dnloadRequest, packet_length, blockPayload_length]
      omega
    refine ⟨dnloadRequest len transaction bytes, download_hands short loaded, ?_, ?_⟩
    · intro padded extends_
      exact ⟨extends_.fits fits, extends_.dnload count⟩
    · intro pktBuf now rc kept run whole
      exact transmission_extends run whole
  · intro data long now final run
    exact download_refuses long run
  · intro data after
    refine ⟨?_, upload_refuses⟩
    intro bytes padded rest room few fits extends_ stored
    exact upload_copies room few fits extends_ stored
  · intro asked after pktBuf now received kept run whole
    exact reception_stores run whole

end DfuUtilQda.Host

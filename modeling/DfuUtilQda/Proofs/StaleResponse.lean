import DfuUtilQda.Proofs.ReceptionParse
import DfuUtilQda.Proofs.ReceptionSafety
import DfuUtilQda.Proofs.Transmission
import DfuUtilQda.Proofs.WireRequests

/-! Which responses mislead a QDA request. The receive callback's result is looked
at nowhere, so a response that begins like the right one is taken for whole however
it ended, and the rest is what the buffer held before. -/

namespace DfuUtilQda.Qda
open Interaction Machine Xmodem

variable {serialDetach : Xmodem.Code Int} {request : Request} {qdaBuf other after : QdaBuf} {pktBuf kept : XmodemPacket}
variable {now later : History Io} {readings others : List Reading} {taken found : List Frame} {retv returned : Int}

/-- During `now` the request was sent and acknowledged; then `xmodem_receive_package` made
`readings`, accepted the blocks `taken` and returned `retv`. -/
def Received (request : Request) (qdaBuf : QdaBuf) (pktBuf : XmodemPacket) (now : History Io)
    (readings : List Reading) (taken : List Frame) (retv : Int) : Prop :=
  Session qdaBufSize readings taken ∧ ∃ sent rc held early late data kept, request.packet? = some sent ∧ now = early ++ late ∧
    outcomes late = readings.flatMap Reading.heard ∧
    0 ≤ rc ∧ Runs ((xmodemTransmitPackage sent).run pktBuf) early (.ret (rc, held)) ∧
    Runs ((xmodemReceivePackage (qdaBuf.store 0 sent).bytes).run held) late (.ret ((retv, data), kept))

/-- What a request makes of a message that has in it every byte to be interpreted or copied. -/
def Request.understand (message : List UInt8) (request : Request) : Option Reply :=
  if UInt32.ofNat (leAt message 0 4) = request.expected then
    match request.wants (leAt message 4 2) with
    | some used => if used ≤ message.length then some (request.reply message) else none
    | none => none
  else none

/-- A request that succeeded received a whole message, and its result is what this message
says. Whatever the buffer held before, the same answer leads to the same result. -/
structure Genuine (serialDetach : Xmodem.Code Int) (request : Request) (qdaBuf : QdaBuf) (pktBuf : XmodemPacket)
    (now : History Io) (result : Option Reply) : Prop where
  whole : ∀ reply, result = some reply → ∃ readings taken retv, Received request qdaBuf pktBuf now readings taken retv ∧
    retv ≠ -1 ∧ request.understand (payloads taken) = some reply
  fresh : ∀ other later again after kept, Returns (request.make (xmodemConf serialDetach)) other pktBuf later again after kept →
    outcomes later = outcomes now → again = result

/-- The peer's first block is the beginning of a response the request takes. -/
def Begins (request : Request) (taken : List Frame) (wanted : Nat) : Prop :=
  ∃ first, taken.head? = some first ∧ UInt32.ofNat (leAt first.data 0 4) = request.expected ∧
    request.wants (leAt first.data 4 2) = some wanted

/-- The response is begun, but what follows does not complete it: there is no EOT, or it comes too early. -/
def CutShort (request : Request) (readings : List Reading) (taken : List Frame) : Prop :=
  ∃ wanted, Begins request taken wanted ∧ (EndsOnEot readings → packetPayloadSize * taken.length < wanted)

/-- The peer acknowledges the request and then answers with a response that is cut short. -/
def Misleads (request : Request) (qdaBuf : QdaBuf) (pktBuf : XmodemPacket) (now : History Io) : Prop :=
  ∃ readings taken retv, Received request qdaBuf pktBuf now readings taken retv ∧ CutShort request readings taken

theorem Received.reported (received : Received request qdaBuf pktBuf now readings taken retv) :
    EndsOnEot readings ∧ retv = packetPayloadSize * taken.length ∨ ¬EndsOnEot readings ∧ retv = -1 := by
  obtain ⟨session, sent, _, _, _, _, _, _, _, _, heard, _, _, receives⟩ := received
  have length : (qdaBuf.store 0 sent).bytes.length = qdaBufSize := (qdaBuf.store 0 sent).size
  obtain ⟨_, _, session', same, _, returned⟩ := reception_returns (by rw [length, qdaBufSize]; omega) receives
  rw [length] at session'
  obtain ⟨rfl, rfl⟩ := session.unique session' (heard.symm.trans same)
  exact returned

/-- What was received is a matter of what arrived, not of what the buffer held before. -/
theorem Received.unique (one : Received request qdaBuf pktBuf now readings taken retv)
    (second : Received request other pktBuf later others found returned) (arrival : outcomes later = outcomes now) :
    readings = others ∧ taken = found ∧ retv = returned := by
  have first := one.reported
  have again := second.reported
  obtain ⟨session, sent, rc, held, early, late, _, _, sending, rfl, heard, _, transmits, _⟩ := one
  obtain ⟨session', _, _, _, sooner, rest, _, _, same, rfl, heard', _, transmits', _⟩ := second
  obtain rfl := Option.some.inj (sending.symm.trans same)
  rw [outcomes_append, outcomes_append] at arrival
  obtain ⟨rfl, _⟩ := same_history transmits transmits' arrival.symm
  obtain equal := List.append_cancel_left arrival
  obtain ⟨rfl, rfl⟩ := session.unique session' (heard.symm.trans (equal.symm.trans heard'))
  refine ⟨rfl, rfl, ?_⟩
  rcases first with ⟨ended, rfl⟩ | ⟨unended, rfl⟩
  · rcases again with ⟨_, rfl⟩ | ⟨unended, _⟩
    · rfl
    · exact absurd ended unended
  · rcases again with ⟨ended, _⟩ | ⟨_, rfl⟩
    · exact absurd ended unended
    · rfl

/-- A request's own type is never the one it expects of the response. -/
theorem Request.unlike (request : Request) {sent : List UInt8} (sending : request.packet? = some sent)
    (fits : sent.length ≤ qdaBufSize) : (qdaBuf.store 0 sent).type ≠ request.expected := by
  cases request with
  | download len transaction data =>
    simp only [packet?] at sending
    split at sending
    next => cases sending
    next =>
      obtain ⟨bytes, _, rfl⟩ := Option.map_eq_some_iff.mp sending
      rw [packet, QdaBuf.type_store _ _ _ fits, expected]
      decide
  | _ =>
    cases sending
    rw [packet, QdaBuf.type_store _ _ _ fits, expected]
    decide

theorem answer_begins {asked : QdaBuf} {data : List UInt8} (fits : packetPayloadSize * taken.length ≤ qdaBufSize)
    (stored : data = contents asked.bytes taken) :
    (asked.store 0 data).bytes = payloads taken ++ asked.bytes.drop (packetPayloadSize * taken.length) := by
  have size : data.length = qdaBufSize := by rw [stored, contents_length (by rw [asked.size]; exact fits), asked.size]
  rw [QdaBuf.store_eq _ _ (by omega), size, ← asked.size, List.drop_length, List.append_nil, stored, contents]

theorem first_field (first : Frame) (rest : List Frame) (offset count : Nat) (inside : offset + count ≤ packetPayloadSize) :
    leAt (payloads (first :: rest)) offset count = leAt first.data offset count := by
  rw [payloads, List.flatMap_cons, leAt_left _ _ _ _ (by rw [first.data_length]; exact inside)]

/-- The fields a request looks at lie in the first block that was accepted. -/
theorem fields_of_first {asked : QdaBuf} {data : List UInt8} {first : Frame} {rest : List Frame}
    (fits : packetPayloadSize * (first :: rest).length ≤ qdaBufSize) (stored : data = contents asked.bytes (first :: rest)) :
    (asked.store 0 data).type = UInt32.ofNat (leAt first.data 0 4) ∧
      leAt (asked.store 0 data).bytes 4 2 = leAt first.data 4 2 := by
  have begins := answer_begins fits stored
  have whole : 6 ≤ (payloads (first :: rest)).length := by
    rw [payloads_length, List.length_cons, packetPayloadSize]
    omega
  refine ⟨?_, ?_⟩
  · rw [QdaBuf.type, QdaBuf.u32, QdaBuf.leAt_front begins 0 4 (by omega), first_field _ _ _ _ (by decide)]
  · rw [QdaBuf.leAt_front begins 4 2 (by omega), first_field _ _ _ _ (by decide)]

theorem Request.reply_left (request : Request) (front rest : List UInt8) {used : Nat}
    (wants : request.wants (leAt front 4 2) = some used) (enough : used ≤ front.length) :
    request.reply (front ++ rest) = request.reply front := by
  cases request with
  | getDevDesc dif =>
    cases wants
    simp only [reply, leAt_left front rest 4 2 (by omega), leAt_left front rest 6 2 (by omega), leAt_left front rest 8 2 (by omega)]
  | getDfuDesc dif =>
    cases wants
    simp only [reply, leAt_left front rest 8 2 (by omega), leAt_left front rest 10 2 (by omega)]
  | upload len transaction data =>
    simp only [Request.wants] at wants
    split at wants
    next => cases wants
    next =>
      cases wants
      have size : leAt (front ++ rest) 4 2 = leAt front 4 2 := leAt_left _ _ _ _ (by omega)
      have block : ((front ++ rest).drop 6).take (leAt front 4 2) = (front.drop 6).take (leAt front 4 2) := by
        rw [List.drop_append_of_le_length (by omega), List.take_append_of_le_length (by rw [List.length_drop]; omega)]
      simp only [reply, size, block]
  | getstatus =>
    cases wants
    simp only [reply, leAt_left front rest 4 4 (by omega), List.getD_eq_getElem?_getD,
      List.getElem?_append_left (show 8 < front.length by omega), List.getElem?_append_left (show 9 < front.length by omega)]
  | getstate =>
    cases wants
    simp only [reply, List.getD_eq_getElem?_getD, List.getElem?_append_left (show 4 < front.length by omega)]
  | _ => rfl

theorem judge_session (request : Request) {asked : QdaBuf} {data : List UInt8} (received : Nat)
    (unlike : asked.type ≠ request.expected) (fits : packetPayloadSize * taken.length ≤ qdaBufSize)
    (stored : data = contents asked.bytes taken) (reply : Reply) :
    request.judge received (asked.store 0 data) = some reply ↔
      request.refuses received = false ∧ request.reply (asked.store 0 data).bytes = reply ∧ ∃ wanted, Begins request taken wanted := by
  cases taken with
  | nil =>
    have untouched : asked.store 0 data = asked := by
      apply QdaBuf.ext_bytes
      rw [answer_begins fits stored, payloads, List.flatMap_nil, List.nil_append, List.length_nil, Nat.mul_zero, List.drop_zero]
    rw [untouched, Request.judge, if_neg unlike]
    simp [Begins]
  | cons first rest =>
    obtain ⟨type, dataLen⟩ := fields_of_first fits stored
    rw [Request.judge, type, dataLen]
    by_cases typed : UInt32.ofNat (leAt first.data 0 4) = request.expected
    · simp [Begins, typed, Option.map_eq_some_iff, and_comm]
    · simp [Begins, typed]

theorem Begins.understood {wanted : Nat} (begins : Begins request taken wanted) : request.understand (payloads taken) =
    if wanted ≤ packetPayloadSize * taken.length then some (request.reply (payloads taken)) else none := by
  obtain ⟨first, head, typed, wants⟩ := begins
  obtain ⟨rest, rfl⟩ := List.head?_eq_some_iff.mp head
  rw [Request.understand, first_field _ _ _ _ (by decide), if_pos typed, first_field _ _ _ _ (by decide), wants, payloads_length]

theorem Begins.reply_whole {wanted : Nat} (begins : Begins request taken wanted) (rest : List UInt8)
    (enough : wanted ≤ packetPayloadSize * taken.length) :
    request.reply (payloads taken ++ rest) = request.reply (payloads taken) := by
  obtain ⟨first, head, _, wants⟩ := begins
  obtain ⟨_, rfl⟩ := List.head?_eq_some_iff.mp head
  rw [← first_field _ _ _ _ (by decide)] at wants
  exact request.reply_left _ _ wants (by rwa [payloads_length])

/-- The transmission was acknowledged, as far as one can tell from what arrived. -/
def Acknowledged (request : Request) (pktBuf : XmodemPacket) (arrival : List (Option UInt8)) : Prop :=
  ∃ sent rc held early rest, request.packet? = some sent ∧ arrival = outcomes early ++ rest ∧
    0 ≤ rc ∧ Runs ((xmodemTransmitPackage sent).run pktBuf) early (.ret (rc, held))

theorem Received.acknowledged (received : Received request qdaBuf pktBuf now readings taken retv) :
    Acknowledged request pktBuf (outcomes now) := by
  obtain ⟨_, sent, rc, held, early, late, _, _, sending, rfl, _, accepted, transmits, _⟩ := received
  exact ⟨sent, rc, held, early, outcomes late, sending, by simp, accepted, transmits⟩

/-- A request that returned was not acknowledged, or succeeded if a response was begun. -/
theorem Request.decided {result : Option Reply}
    (run : Returns (request.make (xmodemConf serialDetach)) qdaBuf pktBuf now result after kept) :
    ¬Acknowledged request pktBuf (outcomes now) ∧ result = none ∨
      ∃ readings taken retv rest, Received request qdaBuf pktBuf now readings taken retv ∧ ∀ reply, result = some reply ↔
        request.refuses (receivedBytes retv) = false ∧ request.reply (payloads taken ++ rest) = reply ∧
          ∃ wanted, Begins request taken wanted := by
  rcases request.returned run with ⟨unsent, rfl⟩ | ⟨sent, sending, fits, rc, held, early, late, transmits, rfl, outcome⟩
  · refine Or.inl ⟨?_, rfl⟩
    rintro ⟨_, _, _, _, _, sending, _⟩
    rw [unsent] at sending
    cases sending
  rcases outcome with ⟨unacknowledged, rfl⟩ | ⟨acknowledged, retv, data, kept, receives, judged⟩
  · refine Or.inl ⟨?_, rfl⟩
    rintro ⟨_, _, _, first, rest, same, arrival, accepted, transmits'⟩
    obtain rfl := Option.some.inj (sending.symm.trans same)
    rw [outcomes_append] at arrival
    obtain ⟨_, ends⟩ := same_history transmits transmits' arrival
    cases ends
    omega
  · have length : (qdaBuf.store 0 sent).bytes.length = qdaBufSize := (qdaBuf.store 0 sent).size
    obtain ⟨readings, taken, session, heard, stored, _⟩ := reception_returns (by rw [length, qdaBufSize]; omega) receives
    rw [length] at session
    refine Or.inr ⟨readings, taken, retv, (qdaBuf.store 0 sent).bytes.drop (packetPayloadSize * taken.length),
      ⟨session, sent, rc, held, early, late, data, kept, sending, rfl, heard, acknowledged, transmits, receives⟩, ?_⟩
    intro reply
    rw [← answer_begins session.fits stored, judged]
    exact judge_session request (receivedBytes retv) (request.unlike sending fits) session.fits stored reply

/-- A reset that fails because its response fills the buffer has heard all of it. -/
theorem CutShort.taken_for_whole (cut : CutShort request readings taken)
    (received : Received request qdaBuf pktBuf now readings taken retv) : request.refuses (receivedBytes retv) = false := by
  cases request with
  | reset =>
    obtain ⟨wanted, ⟨_, _, _, wants⟩, cut⟩ := cut
    cases wants
    have few : receivedBytes retv < qdaBufSize := by
      rcases received.reported with ⟨ended, rfl⟩ | ⟨_, rfl⟩
      · have short : packetPayloadSize * taken.length < 4 := cut ended
        rw [receivedBytes, if_neg (by omega), ← Int.natCast_mul, toSize_nat (by omega), qdaBufSize]
        omega
      · simp [receivedBytes, qdaBufSize]
    have value : toInt (receivedBytes retv) = receivedBytes retv := by
      simp only [qdaBufSize] at few
      exact toInt_of_range (by omega) (by omega)
    simpa [Request.refuses, value] using few
  | _ => rfl

private theorem one_block_exchange {request response : List UInt8} (short : request.length ≤ 128) (some_ : request ≠ [])
    (brief : response.length ≤ 128) (asked : QdaBuf) (pktBuf : XmodemPacket) :
    ∃ (frame : Frame) (held kept : XmodemPacket) (early late : History Io) (readings : List Reading),
      frame.data = patch XmodemPacket.blank.data 0 response ∧
      Runs ((xmodemTransmitPackage request).run pktBuf) early (.ret (128, held)) ∧
      Session qdaBufSize readings [frame] ∧ outcomes late = readings.flatMap Reading.heard ∧
      Runs ((xmodemReceivePackage asked.bytes).run held) late (.ret ((128, contents asked.bytes [frame]), kept)) := by
  have acked : Xmodem.Answered ack maxRetransmit [some ack] true := .heard
  have started : Xmodem.Answered charC maxRetransmit [some charC] true := .heard
  have done : request.drop packetPayloadSize = [] := List.drop_of_length_le short
  have nothing : SendsBlocks (pktBuf.fill (request.take packetPayloadSize) 1) (request.drop packetPayloadSize) 2 [] (some 2)
      (pktBuf.fill (request.take packetPayloadSize) 1) := by
    rw [done]
    exact .done
  have blocks := SendsBlocks.sent some_ acked nothing
  have sends := (runs_transmitPackage request pktBuf _ _ _).mpr (.finished started blocks acked)
  let frame : Frame := ⟨XmodemPacket.blank.fill response 1, XmodemPacket.fill_marked _ _ _ brief⟩
  have size : toSize asked.bytes.length = 8192 := by rw [asked.size, qdaBufSize, toSize_nat (by omega)]
  have fresh : Session (toSize asked.bytes.length) [] [] := .opened
  have accepted : frame.verdict 1 (toSize asked.bytes.length) = .soh :=
    XmodemPacket.verdict_soh.mpr ⟨XmodemPacket.fill_intact _ _ _ brief, XmodemPacket.fill_seqNo _ _ _ brief, by
      rw [size, packetPayloadSize]; omega⟩
  have session := Session.read fresh (by simp) (by decide) (.taken frame accepted)
  obtain ⟨spoken, kept, dialogue, receives⟩ := session.call_occurs (by simp [Open]) (by simp [packetPayloadSize])
    (by simp [errorRun, maxRxErrors]) (pktBuf.fill (request.take packetPayloadSize) 1)
  have whole := size ▸ Session.read session (by simp) (by simp [errorRun, maxRxErrors]) .eot
  have arrival := dialogue.heard
  exact ⟨frame, _, kept, _, ⟨.setTimeout timeoutStd, ()⟩ :: (puts [charC] ++ spoken), _, XmodemPacket.fill_data _ _ _ brief,
    sends, whole, by simpa using arrival, by simpa [packetPayloadSize] using receives⟩

/-- Asks for a block of 200 bytes. -/
def upload200 : Request := .upload 200 0 (List.replicate 200 0)

/-- The answer announces 200 bytes and ends after the 122 that its first block holds. -/
private theorem upload_run (qdaBuf : QdaBuf) (pktBuf : XmodemPacket) : ∃ now data after kept,
    Returns (upload200.make (xmodemConf serialDetach)) qdaBuf pktBuf now (some (.block 200 data)) after kept ∧
      ∃ readings frame, Received upload200 qdaBuf pktBuf now readings [frame] 128 ∧ Begins upload200 [frame] 206 := by
  let request := packet qdaPktDfuUploadReq (blockPayload 200 0 [])
  let response := packet qdaPktDfuUploadResp (leBytes 2 200)
  obtain ⟨frame, held, kept, early, late, readings, payload, sends, session, heard, receives⟩ :=
    @one_block_exchange request response (by simp [request]) (by simp [request, packet, leBytes]) (by simp [response])
      (qdaBuf.store 0 request) pktBuf
  obtain ⟨type, dataLen⟩ := fields_of_first session.fits (rfl : contents (qdaBuf.store 0 request).bytes [frame] = _)
  rw [payload] at type dataLen
  generalize stored : (qdaBuf.store 0 request).store 0 (contents (qdaBuf.store 0 request).bytes [frame]) = answer at type dataLen
  have typed : answer.type = qdaPktDfuUploadResp := type
  have count : (answer.u16 4).toNat = 200 := (answer.u16_toNat 4).trans dataLen
  obtain ⟨bytes, loaded⟩ : ∃ bytes, (answer.pointer 6).load 200 = some bytes :=
    ⟨_, Pointer.load_inside _ 6 200 (by rw [answer.size, qdaBufSize]; omega)⟩
  obtain ⟨data, copied⟩ := memcpy_fits (List.replicate 200 0) 0 bytes
    ⟨by omega, by rw [Pointer.load_length loaded, List.length_replicate]; omega⟩
  refine ⟨early ++ late, data, answer, kept, ?_, readings, frame, ⟨session, request, 128, held, early, late, _, kept, rfl, rfl,
    heard, by decide, sends, receives⟩, frame, rfl, by rw [payload]; rfl, by rw [payload]; rfl⟩
  rw [upload200, Request.make, qdaDfuUpload, ask_block, bind_assoc]
  have talk : Returns (converse request.length false fun _ answer => decide (answer.type = qdaPktDfuUploadResp))
      (qdaBuf.store 0 request) pktBuf (early ++ late) true answer kept := by
    refine (returns_converse _ _ _ _).mpr ⟨128, held, early, late, ?_, rfl,
      Or.inr ⟨by decide, 128, _, receives, stored, by simp [typed]⟩⟩
    rwa [QdaBuf.take_store qdaBuf request (by simp [request, qdaBufSize])]
  have asked : Returns (ask (xmodemConf serialDetach) request qdaPktDfuUploadResp) qdaBuf pktBuf (early ++ late) true
    answer kept := (returns_modify _ _ _).mpr talk
  refine (returns_seq _ _ _).mpr ⟨true, answer, kept, early ++ late, [], asked, ?_, by simp⟩
  rw [if_pos rfl, bind_assoc]
  refine (returns_get _ _).mpr ?_
  have fits : ¬(200 : Nat) > (200 : UInt16).toNat := by decide
  simp only [count, if_neg fits, loaded, copied, pure_bind]
  exact (returns_pure _ _).mpr ⟨rfl, rfl, rfl, rfl⟩

/-- A request that returns has succeeded on nothing but a whole message that it received,
unless the peer's response is cut short. -/
theorem response_genuine_unless_cut_short (request : Request) (result : Option Reply)
    (run : Returns (request.make (xmodemConf serialDetach)) qdaBuf pktBuf now result after kept) :
    Genuine serialDetach request qdaBuf pktBuf now result ↔ ¬Misleads request qdaBuf pktBuf now := by
  constructor
  · rintro genuine ⟨readings, taken, retv, received, cut⟩
    rcases request.decided run with ⟨silent, _⟩ | ⟨_, _, _, rest, received', verdict⟩
    · exact silent received.acknowledged
    obtain ⟨rfl, rfl, rfl⟩ := received.unique received' rfl
    have accepted := cut.taken_for_whole received
    obtain ⟨wanted, begins, early⟩ := cut
    obtain ⟨_, _, _, again, success, understood⟩ :=
      genuine.whole _ ((verdict _).mpr ⟨accepted, rfl, wanted, begins⟩)
    obtain ⟨rfl, rfl, rfl⟩ := received.unique again rfl
    rcases received.reported with ⟨ended, _⟩ | ⟨_, failed⟩
    · have short := early ended
      rw [begins.understood, if_neg (by omega)] at understood
      cases understood
    · exact success failed
  · intro faithful
    rcases request.decided run with ⟨silent, rfl⟩ | ⟨readings, taken, retv, rest, received, verdict⟩
    · refine ⟨?_, ?_⟩
      · intro reply impossible
        cases impossible
      · intro other later again _ _ run' same
        rcases request.decided run' with ⟨_, failed⟩ | ⟨_, _, _, _, received, _⟩
        · exact failed
        · exact absurd (same ▸ received.acknowledged) silent
    have complete {wanted : Nat} (begins : Begins request taken wanted) :
        EndsOnEot readings ∧ wanted ≤ packetPayloadSize * taken.length := by
      by_contra incomplete
      refine faithful ⟨readings, taken, retv, received, wanted, begins, fun ended => ?_⟩
      by_contra long
      exact incomplete ⟨ended, by omega⟩
    refine ⟨?_, ?_⟩
    · intro reply success
      obtain ⟨_, same, wanted, begins⟩ := (verdict reply).mp success
      obtain ⟨ended, enough⟩ := complete begins
      refine ⟨readings, taken, retv, received, ?_, ?_⟩
      · rcases received.reported with ⟨_, rfl⟩ | ⟨unended, _⟩
        · omega
        · exact absurd ended unended
      · rw [begins.understood, if_pos enough, ← same, begins.reply_whole rest enough]
    · intro other later again _ _ run' same
      rcases request.decided run' with ⟨silent, _⟩ | ⟨_, _, _, _, received', verdict'⟩
      · exact absurd (same ▸ received.acknowledged) silent
      obtain ⟨rfl, rfl, rfl⟩ := received.unique received' same
      apply Option.ext
      intro reply
      rw [verdict' reply, verdict reply]
      constructor
      · rintro ⟨accepted, value, wanted, begins⟩
        rw [begins.reply_whole _ (complete begins).2] at value
        exact ⟨accepted, by rwa [begins.reply_whole _ (complete begins).2], wanted, begins⟩
      · rintro ⟨accepted, value, wanted, begins⟩
        rw [begins.reply_whole _ (complete begins).2] at value
        exact ⟨accepted, by rwa [begins.reply_whole _ (complete begins).2], wanted, begins⟩

theorem upload_cut_short : ∃ now, Misleads upload200 .blank .blank now := by
  obtain ⟨now, data, after, kept, run, readings, frame, received, begins⟩ := @upload_run (pure 0) .blank .blank
  refine ⟨now, ?_⟩
  by_contra faithful
  obtain ⟨_, _, _, again, _, understood⟩ := ((response_genuine_unless_cut_short upload200 _ run).mpr faithful).whole _ rfl
  obtain ⟨rfl, rfl, rfl⟩ := received.unique again rfl
  rw [begins.understood, if_neg (by simp [packetPayloadSize])] at understood
  cases understood

/-- What one would like to have of every request. -/
def AlwaysGenuine : Prop :=
  ∀ (serialDetach : Xmodem.Code Int) (request : Request) (qdaBuf after : QdaBuf) (pktBuf kept : XmodemPacket)
    (now : History Io) (result : Option Reply),
    Returns (request.make (xmodemConf serialDetach)) qdaBuf pktBuf now result after kept →
    Genuine serialDetach request qdaBuf pktBuf now result

theorem upload_hands_over_stale_bytes : ¬AlwaysGenuine := by
  intro genuine
  obtain ⟨now, data, after, kept, run, readings, frame, received, begins⟩ := @upload_run (pure 0) .blank .blank
  obtain ⟨_, _, _, again, _, understood⟩ := (genuine _ _ _ _ _ _ _ _ run).whole _ rfl
  obtain ⟨rfl, rfl, rfl⟩ := received.unique again rfl
  rw [begins.understood, if_neg (by simp [packetPayloadSize])] at understood
  cases understood

end DfuUtilQda.Qda

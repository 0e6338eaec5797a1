import DfuUtilQda.Interaction.Complete
import DfuUtilQda.Proofs.Requests
import DfuUtilQda.Qda.Wire

/-! QDA requests on the wire. A request that has returned sent its packet with one
XMODEM call, and received with another one what its result is judged by. -/

namespace DfuUtilQda.Qda
open Interaction Machine Xmodem

/-- The request operations with their arguments. -/
inductive Request where
  | reset
  | getDevDesc (dif : QdaIf)
  | getDfuDesc (dif : QdaIf)
  | setAltSetting (alt : UInt8)
  | download (len transaction : UInt16) (data : Pointer)
  | upload (len transaction : UInt16) (data : List UInt8)
  | getstatus
  | clrstatus
  | getstate
  | abort

/-- What an operation that succeeded has for its caller; an upload, the number of
bytes and the caller's buffer. -/
inductive Reply where
  | done
  | desc (dif : QdaIf)
  | block (retv : Int) (data : List UInt8)
  | status (status : DfuStatus)
  | state (state : Int)

namespace Request

/-- Makes the request. On success, the result is what the operation leaves with its caller. -/
def make {m : Type → Type 1} [Monad m] [Faults m] (conf : QdaConf m) : Request → Code m (Option Reply)
  | reset => do return if (← qdaReset conf) < 0 then none else some .done
  | getDevDesc dif => do return (← qdaGetDevDesc conf dif).map .desc
  | getDfuDesc dif => do return (← qdaGetDfuDesc conf dif).map .desc
  | setAltSetting alt => do return if (← qdaSetAltSetting conf alt) < 0 then none else some .done
  | download len transaction data => do return if (← qdaDfuDownload conf len transaction data) < 0 then none else some .done
  | upload len transaction data => do
    let (retv, data) ← qdaDfuUpload conf len transaction data
    return if retv < 0 then none else some (.block retv data)
  | getstatus => do return (← qdaDfuGetstatus conf).map .status
  | clrstatus => do return if (← qdaDfuClrstatus conf) < 0 then none else some .done
  | getstate => do
    let state ← qdaDfuGetstate conf
    return if state < 0 then none else some (.state state)
  | abort => do return if (← qdaDfuAbort conf) < 0 then none else some .done

/-- The packet that goes out, unless the data to be sent are too long or lie outside their block. -/
def packet? : Request → Option (List UInt8)
  | reset => some (packet qdaPktReset [])
  | getDevDesc _ => some (packet qdaPktDevDescReq [])
  | getDfuDesc _ => some (packet qdaPktDfuDescReq [])
  | setAltSetting alt => some (packet qdaPktDfuSetAltSetting [alt])
  | download len transaction data =>
    if len.toNat > qdaBufSize - 4 - 4 then none
    else (data.load len.toNat).map fun bytes => packet qdaPktDfuDnloadReq (blockPayload len transaction bytes)
  | upload len transaction _ => some (packet qdaPktDfuUploadReq (blockPayload len transaction []))
  | getstatus => some (packet qdaPktDfuGetstatusReq [])
  | clrstatus => some (packet qdaPktDfuClrstatus [])
  | getstate => some (packet qdaPktDfuGetstateReq [])
  | abort => some (packet qdaPktDfuAbort [])

/-- The type of response the request asks for. -/
def expected : Request → UInt32
  | reset | setAltSetting _ | download .. | clrstatus | abort => qdaPktAck
  | getDevDesc _ => qdaPktDevDescResp
  | getDfuDesc _ => qdaPktDfuDescResp
  | upload .. => qdaPktDfuUploadResp
  | getstatus => qdaPktDfuGetstatusResp
  | getstate => qdaPktDfuGetstateResp

/-- How many bytes of a response of the right type are interpreted or copied, given the
length field an upload response carries; nothing if the request refuses such a response. -/
def wants (dataLen : Nat) : Request → Option Nat
  | reset | setAltSetting _ | download .. | clrstatus | abort => some 4
  | getDevDesc _ => some 10
  | getDfuDesc _ => some 12
  | upload len _ _ => if dataLen > len.toNat then none else some (6 + dataLen)
  | getstatus => some 10
  | getstate => some 5

/-- Only a reset looks at the number of bytes, and only for whether they fill the buffer. -/
def refuses (received : Nat) : Request → Bool
  | reset => toInt received ≥ qdaBufSize
  | _ => false

/-- The fields of a response, each from its place in the bytes. -/
def reply (bytes : List UInt8) : Request → Reply
  | reset | setAltSetting _ | download .. | clrstatus | abort => .done
  | getDevDesc dif => .desc { dif with
      product := UInt16.ofNat (leAt bytes 6 2), vendor := UInt16.ofNat (leAt bytes 4 2), bcdDevice := UInt16.ofNat (leAt bytes 8 2) }
  | getDfuDesc dif => .desc { dif with
      wTransferSize := UInt16.ofNat (leAt bytes 8 2), bcdDFUVersion := UInt16.ofNat (leAt bytes 10 2) }
  | upload _ _ data => .block (leAt bytes 4 2) (patch data 0 ((bytes.drop 6).take (leAt bytes 4 2)))
  | getstatus => .status ⟨bytes.getD 8 0, UInt32.ofNat (leAt bytes 4 4), bytes.getD 9 0⟩
  | getstate => .state (bytes.getD 4 0).toNat

/-- The result, from what the receive callback answered. -/
def judge (received : Nat) (answer : QdaBuf) (request : Request) : Option Reply :=
  if request.refuses received then none
  else if answer.type = request.expected then
    (request.wants (leAt answer.bytes 4 2)).map fun _ => request.reply answer.bytes
  else none

end Request

variable {α β : Type} {serialDetach : Xmodem.Code Int} {qdaBuf after : QdaBuf} {pktBuf kept : XmodemPacket} {now : History Io}

/-- A complete run of QDA code over XMODEM, with both static buffers. -/
abbrev Returns (code : Code Xmodem.Code α) (qdaBuf : QdaBuf) (pktBuf : XmodemPacket) (now : History Io) (value : α)
    (after : QdaBuf) (kept : XmodemPacket) : Prop :=
  Runs ((code.run qdaBuf).run pktBuf) now (.ret ((value, after), kept))

theorem returns_pure (found value : α) :
    Returns (pure found) qdaBuf pktBuf now value after kept ↔ now = [] ∧ found = value ∧ qdaBuf = after ∧ pktBuf = kept := by
  refine (runs_ret _ _).trans ?_
  simp [and_assoc]

theorem returns_seq (first : Code Xmodem.Code α) (rest : α → Code Xmodem.Code β) (value : β) :
    Returns (first >>= rest) qdaBuf pktBuf now value after kept ↔
      ∃ found middle held early late, Returns first qdaBuf pktBuf early found middle held ∧
        Returns (rest found) middle held late value after kept ∧ now = early ++ late := by
  unfold Returns
  rw [StateT.run_bind, runs_seq]
  constructor
  · rintro ⟨⟨found, middle⟩, held, early, late, parts⟩
    exact ⟨found, middle, held, early, late, parts⟩
  · rintro ⟨found, middle, held, early, late, parts⟩
    exact ⟨⟨found, middle⟩, held, early, late, parts⟩

theorem returns_modify (change : QdaBuf → QdaBuf) (rest : Code Xmodem.Code α) (value : α) :
    Returns (do modify change; rest) qdaBuf pktBuf now value after kept ↔
      Returns rest (change qdaBuf) pktBuf now value after kept := by
  unfold Returns
  rw [StateT.run_bind, StateT.run_modify, pure_bind]

theorem returns_get (rest : QdaBuf → Code Xmodem.Code α) (value : α) :
    Returns (do rest (← get)) qdaBuf pktBuf now value after kept ↔ Returns (rest qdaBuf) qdaBuf pktBuf now value after kept := by
  unfold Returns
  rw [StateT.run_bind, StateT.run_get, pure_bind]

theorem returns_fault_seq {rest : α → Code Xmodem.Code β} {value : β} :
    ¬Returns (fault >>= rest) qdaBuf pktBuf now value after kept := by
  intro run
  obtain ⟨_, _, _, _, _, broken, _, _⟩ := (returns_seq _ _ _).mp run
  obtain ⟨_, _, _, _, impossible, _, _⟩ := (runs_lift_seq (Xmodem.fault : Xmodem.Code α) pure _ _ _ _ _).mp broken
  obtain ⟨_, _, _, stopped⟩ := (runs_perform_seq (S := Io) .fault _ _ _ _).mp impossible
  exact runs_halt _ stopped

/-- Sending the front of `qda_buf`, receiving over it, and judging by what was received. -/
def converse (length : Nat) (failed : α) (judge : Nat → QdaBuf → α) : Code Xmodem.Code α := do
  let qdaBuf ← get
  let rc ← dfuUtilQdaSend (qdaBuf.bytes.take length)
  if rc < 0 then return failed
  else
    let (received, qdaBuf) ← dfuUtilQdaReceive qdaBuf
    set qdaBuf
    return judge received qdaBuf

/-- What the receive callback makes of the value `xmodem_receive_package` returns. -/
def receivedBytes (retv : Int) : Nat := if retv = -1 then 0 else toSize retv

theorem returns_converse (length : Nat) (failed value : α) (judge : Nat → QdaBuf → α) :
    Returns (converse length failed judge) qdaBuf pktBuf now value after kept ↔
      ∃ rc held early late, Runs ((xmodemTransmitPackage (qdaBuf.bytes.take length)).run pktBuf) early (.ret (rc, held)) ∧
        now = early ++ late ∧
        (rc < 0 ∧ late = [] ∧ failed = value ∧ qdaBuf = after ∧ held = kept ∨
          0 ≤ rc ∧ ∃ retv data, Runs ((xmodemReceivePackage qdaBuf.bytes).run held) late (.ret ((retv, data), kept)) ∧
            qdaBuf.store 0 data = after ∧ judge (receivedBytes retv) after = value) := by
  unfold Returns
  rw [converse, StateT.run_bind, StateT.run_get, pure_bind]
  refine (runs_lift_seq _ _ _ _ _ _ _).trans ?_
  constructor
  · rintro ⟨rc, held, early, late, sent, more, rfl⟩
    refine ⟨rc, held, early, late, sent, rfl, ?_⟩
    split at more
    next refused =>
      obtain ⟨rfl, rfl, rfl, rfl⟩ := (returns_pure _ _).mp more
      exact Or.inl ⟨refused, rfl, rfl, rfl, rfl⟩
    next accepted =>
      obtain ⟨⟨_, _⟩, _, _, _, received, judged, rfl⟩ := (runs_lift_seq _ _ _ _ _ _ _).mp more
      obtain ⟨⟨retv, data⟩, _, _, _, run, done, rfl⟩ := (runs_seq _ _ _ _ _).mp received
      obtain ⟨rfl, same⟩ := (runs_ret _ _).mp done
      cases same
      obtain ⟨rfl, same⟩ := (runs_ret _ _).mp judged
      cases same
      exact Or.inr ⟨by omega, retv, data, by simpa using run, rfl, rfl⟩
  · rintro ⟨rc, held, early, late, sent, rfl, ⟨refused, rfl, rfl, rfl, rfl⟩ | ⟨accepted, retv, data, run, rfl, rfl⟩⟩
    · refine ⟨rc, held, early, [], sent, ?_, rfl⟩
      rw [if_pos refused]
      exact (returns_pure _ _).mpr ⟨rfl, rfl, rfl, rfl⟩
    · refine ⟨rc, held, early, late, sent, ?_, rfl⟩
      rw [if_neg (by omega)]
      refine (runs_lift_seq _ _ _ _ _ _ _).mpr ⟨(receivedBytes retv, qdaBuf.store 0 data), kept, late, [], ?_, ?_, by simp⟩
      · exact (runs_seq _ _ _ _ _).mpr ⟨(retv, data), kept, late, [], run, (runs_ret _ _).mpr ⟨rfl, rfl⟩, by simp⟩
      · exact (runs_ret _ _).mpr ⟨rfl, rfl⟩

/-- What a request that went out as `request` can come to. -/
def Answered (qdaBuf : QdaBuf) (pktBuf : XmodemPacket) (request : List UInt8) (now : History Io)
    (Refused : Prop) (Judged : Int → QdaBuf → Prop) : Prop :=
  ∃ rc held early late, Runs ((xmodemTransmitPackage request).run pktBuf) early (.ret (rc, held)) ∧ now = early ++ late ∧
    (rc < 0 ∧ Refused ∨ 0 ≤ rc ∧ ∃ retv data kept,
      Runs ((xmodemReceivePackage (qdaBuf.store 0 request).bytes).run held) late (.ret ((retv, data), kept)) ∧
        Judged retv ((qdaBuf.store 0 request).store 0 data))

theorem asked {request : List UInt8} {expected : UInt32} {rest : Bool → Code Xmodem.Code (Option Reply)}
    {result : Option Reply} {verdict : QdaBuf → Option Reply} (fits : request.length ≤ qdaBufSize)
    (run : Returns (ask (xmodemConf serialDetach) request expected >>= rest) qdaBuf pktBuf now result after kept)
    (refused : ∀ {middle held later}, Returns (rest false) middle held later result after kept → later = [] ∧ none = result)
    (accepted : ∀ {answer held later}, Returns (rest true) answer held later result after kept →
      later = [] ∧ verdict answer = result) :
    Answered qdaBuf pktBuf request now (result = none) fun _ answer =>
      result = if answer.type = expected then verdict answer else none := by
  obtain ⟨ok, middle, held, early, late, spoken, rest_, rfl⟩ := (returns_seq _ _ _).mp run
  have talk : Returns (converse request.length false fun _ answer => decide (answer.type = expected))
      (qdaBuf.store 0 request) pktBuf early ok middle held := (returns_modify _ _ _).mp spoken
  obtain ⟨rc, between, first, second, sent, rfl, outcome⟩ := (returns_converse _ _ _ _).mp talk
  rw [QdaBuf.take_store _ _ fits] at sent
  rcases outcome with ⟨unsent, rfl, rfl, _⟩ | ⟨acknowledged, retv, data, received, rfl, rfl⟩
  · obtain ⟨rfl, rfl⟩ := refused rest_
    exact ⟨rc, between, first, [], sent, by simp, Or.inl ⟨unsent, rfl⟩⟩
  · by_cases typed : ((qdaBuf.store 0 request).store 0 data).type = expected
    · obtain ⟨rfl, rfl⟩ := accepted (by simpa [typed] using rest_)
      exact ⟨rc, between, first, second, sent, by simp, Or.inr ⟨acknowledged, retv, data, held, received, (if_pos typed).symm⟩⟩
    · obtain ⟨rfl, rfl⟩ := refused (by simpa [typed] using rest_)
      exact ⟨rc, between, first, second, sent, by simp, Or.inr ⟨acknowledged, retv, data, held, received, (if_neg typed).symm⟩⟩

theorem returns_value {found value : α} {later : History Io} {middle : QdaBuf} {held : XmodemPacket}
    (run : Returns (pure found) middle held later value after kept) : later = [] ∧ found = value :=
  have parts := (returns_pure _ _).mp run
  ⟨parts.1, parts.2.1⟩

/-- A request that returned went out as its packet, or not at all; if it was acknowledged,
the response that was received decides its result. -/
theorem Request.returned (request : Request) {result : Option Reply}
    (run : Returns (request.make (xmodemConf serialDetach)) qdaBuf pktBuf now result after kept) :
    request.packet? = none ∧ result = none ∨
      ∃ sent, request.packet? = some sent ∧ sent.length ≤ qdaBufSize ∧ Answered qdaBuf pktBuf sent now (result = none)
        fun retv answer => result = request.judge (receivedBytes retv) answer := by
  have natural (value : Nat) : ¬(value : Int) < 0 := by omega
  cases request with
  | reset =>
    obtain ⟨rc, middle, held, early, late, spoken, judged, rfl⟩ := (returns_seq _ _ _).mp run
    have talk : Returns (converse 4 (-1) fun received answer =>
        if toInt received ≥ qdaBufSize then -1 else if answer.type ≠ qdaPktAck then -1 else 0)
        (qdaBuf.store32 0 qdaPktReset) pktBuf early rc middle held := by
      have same := (returns_modify _ _ _).mp spoken
      simpa only [converse, xmodemConf, ← apply_ite pure] using same
    obtain ⟨_, between, first, second, sent, rfl, outcome⟩ := (returns_converse _ _ _ _).mp talk
    obtain ⟨rfl, verdict⟩ := returns_value judged
    rw [store_type] at sent outcome
    rw [show (4 : Nat) = (packet qdaPktReset []).length from by simp, QdaBuf.take_store _ _ (by simp [qdaBufSize])] at sent
    refine Or.inr ⟨_, rfl, by simp [qdaBufSize], _, between, first, second, sent, by simp, ?_⟩
    rcases outcome with ⟨unsent, _, rfl, _⟩ | ⟨acknowledged, retv, data, received, rfl, rfl⟩
    · exact Or.inl ⟨unsent, by simpa using verdict.symm⟩
    · refine Or.inr ⟨acknowledged, retv, data, held, received, ?_⟩
      rw [← verdict]
      by_cases full : toInt (receivedBytes retv) ≥ qdaBufSize
      · simp [judge, refuses, full]
      · by_cases typed : ((qdaBuf.store 0 (packet qdaPktReset [])).store 0 data).type = qdaPktAck
        · simp [judge, refuses, wants, expected, reply, full, typed]
        · simp [judge, refuses, expected, full, typed]
  | download len transaction data =>
    rw [make, qdaDfuDownload_eq] at run
    simp only [packet?]
    split at run
    next long =>
      rw [if_pos long]
      rw [bind_assoc] at run
      obtain ⟨_, same⟩ := returns_value (by simpa using (returns_modify _ _ _).mp run)
      exact Or.inl ⟨rfl, same.symm⟩
    next room =>
      rw [if_neg room]
      cases loaded : data.load len.toNat with
      | none =>
        simp only [loaded, bind_assoc] at run
        exact absurd ((returns_modify _ _ _).mp run) returns_fault_seq
      | some bytes =>
        have count := Pointer.load_length loaded
        simp only [loaded, bind_assoc] at run
        have fits : (packet qdaPktDfuDnloadReq (blockPayload len transaction bytes)).length ≤ qdaBufSize := by
          simp only [packet_length, blockPayload_length, qdaBufSize] at room ⊢
          omega
        refine Or.inr ⟨_, rfl, fits, asked fits run ?_ ?_⟩
        · exact fun rest => returns_value (by simpa using rest)
        · exact fun rest => returns_value (by simpa [wants, reply] using rest)
  | upload len transaction data =>
    rw [make, qdaDfuUpload, ask_block, bind_assoc] at run
    refine Or.inr ⟨_, rfl, by simp [qdaBufSize], asked (by simp [qdaBufSize]) run ?_ ?_⟩
    · exact fun rest => returns_value (by simpa using rest)
    · intro answer held later rest
      rw [if_pos rfl, bind_assoc] at rest
      have rest := (returns_get _ _).mp rest
      simp only [wants, QdaBuf.u16_toNat] at rest ⊢
      split at rest
      next long =>
        rw [if_pos long]
        exact returns_value (by simpa using rest)
      next short =>
        rw [if_neg short, Option.map_some, reply]
        split at rest
        next => exact absurd rest returns_fault_seq
        next bytes loaded =>
          split at rest
          next => exact absurd rest returns_fault_seq
          next after copied =>
            rw [← Pointer.load_bytes loaded, ← memcpy_start copied]
            exact returns_value (by simpa [natural] using rest)
  | _ =>
    simp only [make, qdaGetDevDesc, qdaGetDfuDesc, qdaSetAltSetting, qdaDfuGetstatus, qdaDfuClrstatus, qdaDfuGetstate,
      qdaDfuAbort, simpleRequest, ask_type, ask_alt, bind_assoc] at run
    refine Or.inr ⟨_, rfl, by simp [qdaBufSize], asked (by simp [qdaBufSize]) run ?_ ?_⟩
    · exact fun rest => returns_value (by simpa using rest)
    · exact fun rest => returns_value
        (by simpa [-bind_pure_comp, wants, reply, QdaBuf.u8, QdaBuf.u16, QdaBuf.u32, returns_get, natural] using rest)

end DfuUtilQda.Qda

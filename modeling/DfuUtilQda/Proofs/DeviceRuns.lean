import DfuUtilQda.Interaction.Complete
import DfuUtilQda.Proofs.DeviceCalls

/-! Complete runs of the calls to the device, for a device that takes every request
and answers it. They are what concrete sessions are put together from. -/

namespace DfuUtilQda.Host
open Interaction Machine Qda Dfu

/-- A request that was taken, and the response to it. -/
def conversation (qdaBuf : QdaBuf) (request : List UInt8) (after : QdaBuf) : History Calls :=
  [⟨.send request, 0⟩, ⟨.receive (qdaBuf.store 0 request), (0, after)⟩]

@[simp] theorem dialogue_conversation (now : History Calls) (qdaBuf : QdaBuf) (request : List UInt8) (after : QdaBuf) :
    dialogue (now ++ conversation qdaBuf request after) = dialogue now ++ [⟨request, some after⟩] := by
  have split : now ++ conversation qdaBuf request after = answered now request 0 (qdaBuf.store 0 request) 0 after := by
    simp [conversation, answered, sent]
  rw [split, dialogue_answered]

/-- A packet the device sends. -/
def response (type : UInt32) (payload : List UInt8) : QdaBuf := QdaBuf.blank.store 0 (packet type payload)

def acknowledgement : QdaBuf := response qdaPktAck []

/-- A status report that asks for no waiting. -/
def statusReport (bState bStatus : UInt8) : QdaBuf := response qdaPktDfuGetstatusResp [0, 0, 0, 0, bStatus, bState]

theorem response_bytes {type : UInt32} {payload : List UInt8} (fits : payload.length ≤ 8188) :
    (response type payload).bytes = leBytes 4 type.toNat ++ (payload ++ QdaBuf.blank.bytes.drop (4 + payload.length)) := by
  rw [response, QdaBuf.store_eq _ _ (by rw [packet_length, qdaBufSize]; omega), packet_length, packet, List.append_assoc]

theorem response_type {type : UInt32} {payload : List UInt8} (fits : payload.length ≤ 8188) : (response type payload).type = type :=
  QdaBuf.type_store _ _ _ (by rw [List.length_append, leBytes_length, qdaBufSize]; omega)

@[simp] theorem acknowledgement_type : acknowledgement.type = qdaPktAck := response_type (by decide)

theorem statusReport_type (bState bStatus : UInt8) : (statusReport bState bStatus).type = qdaPktDfuGetstatusResp :=
  response_type (by simp)

@[simp] theorem report_statusReport (request : List UInt8) (bState bStatus : UInt8) :
    (Exchange.mk request (some (statusReport bState bStatus))).report = some ⟨bStatus, 0, bState⟩ := by
  have fields : (statusReport bState bStatus).u8 9 = bState ∧ (statusReport bState bStatus).u8 8 = bStatus ∧
      (statusReport bState bStatus).u32 4 = 0 := by
    have short : [0, 0, 0, 0, bStatus, bState].length ≤ 8188 := by simp
    simp only [QdaBuf.u8, QdaBuf.u32, leAt, statusReport, response_bytes short]
    exact ⟨rfl, rfl, rfl⟩
  rw [Exchange.report, Option.bind_some, if_pos (statusReport_type _ _), fields.1, fields.2.1, fields.2.2]

section Runs

variable (qdaBuf : QdaBuf)

theorem ask_run (request : List UInt8) (expected : UInt32) (fits : request.length ≤ qdaBufSize) (after : QdaBuf) :
    Runs ((ask qdaConf request expected).run qdaBuf) (conversation qdaBuf request after)
      (.ret (decide (after.type = expected), after)) := by
  have taken := QdaBuf.take_store qdaBuf request fits
  have start : Runs ((ask qdaConf request expected).run qdaBuf)
      ([⟨.send ((qdaBuf.store 0 request).bytes.take request.length), 0⟩] ++ [⟨.receive (qdaBuf.store 0 request), (0, after)⟩])
      (.ret (decide (after.type = expected), after)) := .call (.call (.here _))
  rwa [taken] at start

theorem ask_refused (request : List UInt8) (expected : UInt32) (fits : request.length ≤ qdaBufSize) :
    Runs ((ask qdaConf request expected).run qdaBuf) [⟨.send request, (-1 : Int)⟩] (.ret (false, qdaBuf.store 0 request)) := by
  have taken := QdaBuf.take_store qdaBuf request fits
  have start : Runs ((ask qdaConf request expected).run qdaBuf)
      [⟨.send ((qdaBuf.store 0 request).bytes.take request.length), (-1 : Int)⟩] (.ret (false, qdaBuf.store 0 request)) :=
    .call (.here _)
  rwa [taken] at start

theorem runs_ask (request : List UInt8) (expected : UInt32) (fits : request.length ≤ qdaBufSize) (now : History Calls)
    (ok : Bool) (held : QdaBuf) : Runs ((ask qdaConf request expected).run qdaBuf) now (.ret (ok, held)) ↔
      ∃ rc, rc < 0 ∧ now = sent [] request rc ∧ ok = false ∧ held = qdaBuf.store 0 request ∨
        0 ≤ rc ∧ (∃ received, now = answered [] request rc (qdaBuf.store 0 request) received held) ∧ ok = decide (held.type = expected) := by
  rw [ask_tree _ _ _ fits, runs_call]
  constructor
  · rintro ⟨rc, later, rfl, run⟩
    by_cases refused : rc < 0
    · rw [if_pos refused] at run
      obtain ⟨rfl, same⟩ := (runs_ret _ _).mp run
      cases same
      exact ⟨rc, Or.inl ⟨refused, rfl, rfl, rfl⟩⟩
    · rw [if_neg refused, runs_call] at run
      obtain ⟨answer, _, rfl, run⟩ := run
      obtain ⟨rfl, same⟩ := (runs_ret _ _).mp run
      cases same
      exact ⟨rc, Or.inr ⟨Int.not_lt.mp refused, ⟨answer.1, rfl⟩, rfl⟩⟩
  · rintro ⟨rc, ⟨refused, rfl, rfl, rfl⟩ | ⟨accepted, ⟨received, rfl⟩, rfl⟩⟩
    · refine ⟨rc, [], rfl, ?_⟩
      rw [if_pos refused]
      exact .here _
    · refine ⟨rc, [⟨.receive (qdaBuf.store 0 request), (received, held)⟩], rfl, ?_⟩
      rw [if_neg (Int.not_lt.mpr accepted)]
      exact .call (.here _)

theorem simple_run (type : UInt32) {after : QdaBuf} (acknowledges : after.type = qdaPktAck) :
    Runs ((simpleRequest qdaConf type).run qdaBuf) (conversation qdaBuf (packet type []) after) (.ret (0, after)) := by
  rw [simpleRequest, ask_type, ← List.append_nil (conversation _ _ _)]
  refine (ask_run qdaBuf (packet type []) qdaPktAck (by simp [qdaBufSize]) after).andThen ?_
  rw [acknowledges, decide_eq_true rfl, if_pos rfl]
  exact .here _

theorem setAltSetting_run (alt : UInt8) : Runs ((qdaSetAltSetting qdaConf alt).run qdaBuf)
    (conversation qdaBuf (setAltRequest alt) acknowledgement) (.ret (0, acknowledgement)) := by
  rw [qdaSetAltSetting, ask_alt, ← List.append_nil (conversation _ _ _)]
  refine (ask_run qdaBuf (setAltRequest alt) qdaPktAck (by simp [setAltRequest, qdaBufSize]) acknowledgement).andThen ?_
  rw [acknowledgement_type, decide_eq_true rfl, if_pos rfl]
  exact .here _

/-- The descriptor of a DFU 1.1 device that takes 1024 bytes at a time. -/
def dfuDescriptor : QdaBuf := response qdaPktDfuDescResp [0, 0, 0, 0, 0, 4, 0x10, 1]

theorem getDfuDesc_run (dif : QdaIf) : Runs ((qdaGetDfuDesc qdaConf dif).run qdaBuf)
    (conversation qdaBuf dfuDescRequest dfuDescriptor)
    (.ret (some { dif with wTransferSize := 1024, bcdDFUVersion := 0x110 }, dfuDescriptor)) := by
  have typed : dfuDescriptor.type = qdaPktDfuDescResp := response_type (by decide)
  have fields : dfuDescriptor.u16 8 = 1024 ∧ dfuDescriptor.u16 10 = 0x110 := by
    have short : [0, 0, 0, 0, 0, 4, 0x10, (1 : UInt8)].length ≤ 8188 := by decide
    simp only [QdaBuf.u16, leAt, dfuDescriptor, response_bytes short]
    exact ⟨rfl, rfl⟩
  rw [qdaGetDfuDesc, ask_type, ← List.append_nil (conversation _ _ _)]
  refine (ask_run qdaBuf dfuDescRequest qdaPktDfuDescResp (by simp [dfuDescRequest, qdaBufSize]) dfuDescriptor).andThen ?_
  rw [typed, decide_eq_true rfl, if_pos rfl, ← fields.1, ← fields.2]
  exact .here _

theorem getStatus_answered {after : QdaBuf} {dst : DfuStatus}
    (reported : (Exchange.mk getstatusRequest (some after)).report = some dst) :
    Runs ((dfuGetStatus qdaConf).run qdaBuf) (conversation qdaBuf getstatusRequest after) (.ret (some dst, after)) := by
  have asked := ask_run qdaBuf getstatusRequest qdaPktDfuGetstatusResp (by simp [getstatusRequest, qdaBufSize]) after
  rw [Exchange.report, Option.bind_some] at reported
  split at reported
  next typed =>
    rw [dfuGetStatus, qdaDfuGetstatus, ask_type, ← List.append_nil (conversation _ _ _)]
    refine asked.andThen ?_
    rw [typed, decide_eq_true rfl, if_pos rfl, ← reported]
    exact .here _
  next => cases reported

theorem getStatus_run (bState bStatus : UInt8) :
    Runs ((dfuGetStatus qdaConf).run qdaBuf) (conversation qdaBuf getstatusRequest (statusReport bState bStatus))
      (.ret (some ⟨bStatus, 0, bState⟩, statusReport bState bStatus)) :=
  getStatus_answered qdaBuf (report_statusReport getstatusRequest bState bStatus)

/-- What a pause adds to the history. -/
def slept (ms : UInt32) : History Calls := if ms ≠ 0 then [⟨.milliSleep ms, ()⟩] else []

@[simp] theorem dialogue_slept (now : History Calls) (ms : UInt32) : dialogue (now ++ slept ms) = dialogue now := by
  unfold slept
  split
  · exact dialogue_aside now ⟨by simp, by simp⟩
  · rw [List.append_nil]

theorem milliSleep_run (ms : UInt32) : Runs ((milliSleep ms).run qdaBuf) (slept ms) (.ret ((), qdaBuf)) := by
  unfold milliSleep slept
  split
  · exact .call (.here _)
  · exact .here _

/-- The state of the device, which is what clearing the status asks for. -/
def stateReport (bState : UInt8) : QdaBuf := response qdaPktDfuGetstateResp [bState]

theorem stateReport_type (bState : UInt8) : (stateReport bState).type = qdaPktDfuGetstateResp := response_type (by simp)

theorem clearStatus_run (bState : UInt8) : Runs ((dfuClearStatus qdaConf).run qdaBuf)
    (conversation qdaBuf getstateRequest (stateReport bState))
    (.ret ((((stateReport bState).u8 4).toNat : Int), stateReport bState)) := by
  rw [dfuClearStatus, qdaDfuGetstate, ask_type, ← List.append_nil (conversation _ _ _)]
  refine (ask_run qdaBuf getstateRequest qdaPktDfuGetstateResp (by simp [getstateRequest, qdaBufSize]) _).andThen ?_
  rw [stateReport_type, decide_eq_true rfl, if_pos rfl]
  exact .here _

theorem download_run {len transaction : UInt16} {data : Pointer} {bytes : List UInt8} (short : len.toNat ≤ qdaBufSize - 8)
    (loaded : data.load len.toNat = some bytes) :
    Runs ((dfuDownload qdaConf len transaction data).run qdaBuf)
      (conversation qdaBuf (dnloadRequest len transaction bytes) acknowledgement) (.ret (0, acknowledgement)) := by
  have count := Pointer.load_length loaded
  have fits : (dnloadRequest len transaction bytes).length ≤ qdaBufSize := by
    simp only [dnloadRequest, packet_length, blockPayload_length, qdaBufSize] at short ⊢
    omega
  have asked := ask_run qdaBuf _ qdaPktAck fits acknowledgement
  rw [dfuDownload, qdaDfuDownload_eq, if_neg (by omega), ← List.append_nil (conversation _ _ _)]
  simp only [loaded]
  refine asked.andThen ?_
  rw [acknowledgement_type, decide_eq_true rfl, if_pos rfl]
  exact .here _

theorem download_refused {len transaction : UInt16} {data : Pointer} {bytes : List UInt8} (short : len.toNat ≤ qdaBufSize - 8)
    (loaded : data.load len.toNat = some bytes) :
    Runs ((dfuDownload qdaConf len transaction data).run qdaBuf) [⟨.send (dnloadRequest len transaction bytes), (-1 : Int)⟩]
      (.ret (-1, qdaBuf.store 0 (dnloadRequest len transaction bytes))) := by
  have count := Pointer.load_length loaded
  have fits : (dnloadRequest len transaction bytes).length ≤ qdaBufSize := by
    simp only [dnloadRequest, packet_length, blockPayload_length, qdaBufSize] at short ⊢
    omega
  rw [dfuDownload, qdaDfuDownload_eq, if_neg (by omega), ← List.append_nil [_]]
  simp only [loaded]
  refine (ask_refused qdaBuf _ qdaPktAck fits).andThen ?_
  rw [if_neg (by decide)]
  exact .here _

end Runs

end DfuUtilQda.Host

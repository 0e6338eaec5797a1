import DfuUtilQda.Device.Target
import DfuUtilQda.Proofs.DeviceCalls

/-! What each call of the program does when the device is attached: the device is
asked once, and what it has answered is what the call returns. -/

namespace DfuUtilQda.Device
open Interaction Machine Qda Host Dfu

variable {traits : Traits} {world : World} {halted : World → Prop} {held : QdaBuf} {α β : Type}

section Requests

variable {request : Request}

theorem next_send (fits : request.Fits) (rc : Int) : world.next traits ⟨.send request.message, rc⟩ = world.asked traits request := by
  have decoded := request.decode_alone fits
  rw [World.next, decoded]

theorem reply_received {answer : Nat × QdaBuf} (told : world.reply.Fits)
    (answered : world.Answers answer) : world.reply.Shows answer.2 ∧
      ∃ message, world.reply.Encodes message ∧ answer.1 < message.length + 128 := by
  obtain ⟨message, encodes, ⟨rest, begins⟩, few⟩ := answered
  rw [List.take_of_length_le (encodes.length_le told)] at begins
  exact ⟨Reply.shows told encodes begins.symm, message, encodes, few⟩

theorem ask_settles {expected : UInt32} (fits : request.Fits) (small : request.message.length ≤ qdaBufSize)
    (told : (world.asked traits request).reply.Fits) :
    Settles (attached traits) halted (ask qdaConf request.message expected) (fun ok held after =>
      after = world.asked traits request ∧ after.reply.Shows held ∧ ok = decide (after.reply.type = expected)) held world := by
  rintro start now rfl
  rw [ask_tree _ _ _ small]
  apply Ends.call
  intro rc accepted
  have accepted : (0 : Int) ≤ rc := accepted
  rw [if_neg (Int.not_lt.mpr accepted)]
  apply Ends.call
  intro answer answered
  have sent : (attached traits).after start (now ++ [⟨.send request.message, rc⟩]) =
      ((attached traits).after start now).asked traits request := by
    rw [Environment.after_append]
    exact next_send fits rc
  have same : (attached traits).after start (now ++ [⟨.send request.message, rc⟩] ++ [⟨.receive (held.store 0 request.message), answer⟩]) =
      ((attached traits).after start now).asked traits request := by
    rw [Environment.after_append, sent]
    rfl
  rw [Environment.permits, sent] at answered
  have shows_ := (reply_received told answered).1
  apply Ends.ret
  rw [same]
  exact ⟨rfl, shows_, by rw [shows_.type]⟩

theorem command_settles {expected : UInt32} {program : Bool → Host.Code Int} (fits : request.Fits)
    (small : request.message.length ≤ qdaBufSize) (told : (world.asked traits request).reply.Fits)
    (result : ∀ ok held, ∃ rc : Int, (program ok).run held = pure (rc, held) ∧ (0 ≤ rc ↔ ok = true)) :
    Settles (attached traits) halted (ask qdaConf request.message expected >>= program) (fun rc _ after =>
      after = world.asked traits request ∧ (0 ≤ rc ↔ after.reply.type = expected)) held world := by
  apply (ask_settles fits small told).bind
  intro ok kept after done start now there
  obtain ⟨same, _, rfl⟩ := done
  obtain ⟨rc, ends, sign⟩ := result (decide (after.reply.type = expected)) kept
  rw [ends]
  apply Ends.ret
  rw [there]
  exact ⟨same, by rw [sign, decide_eq_true_iff]⟩

end Requests

theorem milliSleep_settles {ms : UInt32} {rest : Unit → Host.Code β} {final : β → QdaBuf → World → Prop}
    (more : Settles (attached traits) halted (rest ()) final held world) :
    Settles (attached traits) halted (milliSleep ms >>= rest) final held world := by
  unfold milliSleep
  split
  · exact Settles.perform_seq fun _ _ => more
  · rw [pure_bind]
    exact more

theorem exit_settles {code : Nat} {post : α → QdaBuf → World → Prop} (done : halted { world with code := some code }) :
    Settles (attached traits) halted (Host.exit code) post held world :=
  Settles.perform_seq fun _ _ => .halt done

section Calls

theorem detach_settles : Settles (attached traits) halted (qdaDfuDetach qdaConf) (fun rc _ after => rc = 0 ∧ after = world)
    held world := by
  rintro start now rfl
  apply Ends.call
  intro rc accepted
  have accepted : (0 : Int) ≤ rc := accepted
  have same : (if rc < 0 then pure (-1) else pure 0 : Host.Code Int) = pure 0 := if_neg (Int.not_lt.mpr accepted)
  change Ends _ _ _ _ ((if rc < 0 then pure (-1) else pure 0 : Host.Code Int).run held)
  rw [same]
  apply Ends.ret
  rw [Environment.after_append]
  exact ⟨rfl, rfl⟩

theorem getDfuDesc_settles (dif : QdaIf) : Settles (attached traits) halted (qdaGetDfuDesc qdaConf dif) (fun found _ after =>
    found = some { dif with wTransferSize := traits.transferSize, bcdDFUVersion := traits.bcdDfuVer } ∧
    after = world.asked traits .dfuDesc) held world := by
  rw [qdaGetDfuDesc, ask_type]
  apply (@ask_settles traits world halted held .dfuDesc qdaPktDfuDescResp trivial (by simp [Request.message, qdaBufSize]) trivial).bind
  intro ok kept after done start now there
  obtain ⟨same, shows_, rfl⟩ := done
  rw [same] at shows_
  obtain ⟨_, size, version⟩ := shows_
  have typed : after.reply.type = qdaPktDfuDescResp := by rw [same]; rfl
  rw [typed]
  apply Ends.ret
  rw [there, size, version]
  exact ⟨rfl, same⟩

theorem setAltSetting_settles (alt : UInt8) : Settles (attached traits) halted (qdaSetAltSetting qdaConf alt) (fun rc _ after =>
    0 ≤ rc ∧ after = world.asked traits (.setAltSetting alt)) held world := by
  rw [qdaSetAltSetting, ask_alt]
  apply (@command_settles traits world halted held (.setAltSetting alt) qdaPktAck _ trivial (by simp [Request.message, qdaBufSize])
    trivial ?_).imp
  · intro rc _ after done
    obtain ⟨rfl, sign⟩ := done
    exact ⟨sign.mpr rfl, rfl⟩
  · intro ok held
    cases ok
    · exact ⟨-1, rfl, by simp⟩
    · exact ⟨0, rfl, by simp⟩

theorem getStatus_settles : Settles (attached traits) halted (dfuGetStatus qdaConf) (fun found _ after =>
    (∃ dst, found = some dst ∧ dst.bState = world.target.polled.stage.bState ∧ dst.bStatus = world.target.polled.stage.bStatus) ∧
    after = world.asked traits .getStatus) held world := by
  rw [dfuGetStatus, qdaDfuGetstatus, ask_type]
  apply (@ask_settles traits world halted held .getStatus qdaPktDfuGetstatusResp trivial (by simp [Request.message, qdaBufSize]) trivial).bind
  intro ok kept after done start now there
  obtain ⟨same, shows_, rfl⟩ := done
  rw [same] at shows_
  obtain ⟨_, bStatus, bState⟩ := shows_
  have typed : after.reply.type = qdaPktDfuGetstatusResp := by rw [same]; rfl
  rw [typed]
  apply Ends.ret
  rw [there]
  exact ⟨⟨_, rfl, bState, bStatus⟩, same⟩

theorem abort_settles (abortable : world.target.stage.Abortable) : Settles (attached traits) halted (dfuAbort qdaConf)
    (fun rc _ after => 0 ≤ rc ∧ after = world.asked traits .abort) held world := by
  have acked : (world.asked traits .abort).reply = .ack := by
    rw [World.asked, Traits.serve, if_pos abortable]
  rw [dfuAbort, qdaDfuAbort, simpleRequest, ask_type]
  apply (@command_settles traits world halted held .abort qdaPktAck _ trivial (by simp [Request.message, qdaBufSize])
    (by rw [acked]; trivial) ?_).imp
  · intro rc _ after done
    obtain ⟨rfl, sign⟩ := done
    rw [acked] at sign
    exact ⟨sign.mpr rfl, rfl⟩
  · intro ok held
    cases ok
    · exact ⟨-1, rfl, by simp⟩
    · exact ⟨0, rfl, by simp⟩

theorem dnload_replies (target : Target) (block : UInt16) (data : List UInt8) :
    (traits.serve target (.dnload block data)).2 = .ack ∨ (traits.serve target (.dnload block data)).2 = .stall := by
  obtain ⟨firmware, stage⟩ := target
  have either (image : List UInt8) (blocks : Nat) : (traits.dnload ⟨firmware, stage⟩ image blocks block data).2 = .ack ∨
      (traits.dnload ⟨firmware, stage⟩ image blocks block data).2 = .stall := by
    unfold Traits.dnload
    split
    · exact .inr rfl
    split
    · exact .inl rfl
    split
    · exact .inl rfl
    · exact .inr rfl
  cases stage with
  | idle => exact either [] 0
  | dnloadIdle image blocks => exact either image blocks
  | busy | manifest | uploadIdle | error => exact .inr rfl

theorem download_settles {len block : UInt16} {data : Pointer} {bytes : List UInt8} (small : len.toNat ≤ qdaBufSize - 8)
    (loaded : data.load len.toNat = some bytes) : Settles (attached traits) halted (dfuDownload qdaConf len block data)
    (fun rc _ after => after = world.asked traits (.dnload block bytes) ∧ (0 ≤ rc ↔ after.reply = .ack)) held world := by
  have count := Pointer.load_length loaded
  have size : qdaBufSize = 8192 := rfl
  have told : (world.asked traits (.dnload block bytes)).reply.Fits := by
    obtain ack | stall := @dnload_replies traits world.target block bytes
    · rw [World.asked, ack]
      trivial
    · rw [World.asked, stall]
      trivial
  rw [dfuDownload, qdaDfuDownload_eq, if_neg (by omega), loaded]
  dsimp only
  rw [← dnload_message count]
  have asked := @command_settles traits world halted held (.dnload block bytes) qdaPktAck
  apply (asked (dnload_fits count) (dnload_short count small) told ?_).imp
  · intro rc _ after done
    obtain ⟨rfl, sign⟩ := done
    refine ⟨rfl, sign.trans ?_⟩
    obtain ack | stall := @dnload_replies traits world.target block bytes
    · rw [World.asked, ack]
      exact ⟨fun _ => rfl, fun _ => rfl⟩
    · rw [World.asked, stall]
      exact ⟨fun same => absurd same (by simp only [Reply.type]; decide), fun same => absurd same (by simp)⟩
  · intro ok held
    cases ok
    · exact ⟨-1, rfl, by simp⟩
    · exact ⟨0, rfl, by simp⟩

theorem reset_settles : Settles (attached traits) halted (qdaReset qdaConf) (fun rc _ after =>
    rc = 0 ∧ after = world.asked traits .reset) held world := by
  rw [qdaReset]
  apply Settles.modify_seq
  apply Settles.get_seq
  have front : (held.store32 0 qdaPktReset).bytes.take 4 = Request.message .reset := by
    rw [store_type]
    exact QdaBuf.take_store held (packet qdaPktReset []) (by simp [qdaBufSize])
  rw [front]
  apply Settles.perform_seq
  intro rc accepted
  have accepted : (0 : Int) ≤ rc := accepted
  have sent : (attached traits).next world ⟨.send (Request.message .reset), rc⟩ = world.asked traits .reset :=
    @next_send traits world .reset trivial rc
  rw [sent, if_neg (Int.not_lt.mpr accepted)]
  apply Settles.perform_seq
  intro answer answered
  have told : (world.asked traits .reset).reply.Fits := trivial
  obtain ⟨typed, message, encodes, few⟩ := reply_received told answered
  obtain rfl := encodes
  have short : ¬toInt answer.1 ≥ qdaBufSize := by
    have size : (qdaBufSize : Int) = 8192 := rfl
    rw [packet_length] at few
    have few : answer.1 < 132 := few
    rw [toInt_of_range (by omega) (by omega)]
    omega
  have typed : answer.2.type = qdaPktAck := typed
  apply Settles.set_seq
  rw [if_neg short, if_neg (not_not.mpr typed)]
  exact Settles.pure ⟨rfl, rfl⟩

end Calls

end DfuUtilQda.Device

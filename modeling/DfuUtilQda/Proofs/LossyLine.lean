import DfuUtilQda.Device.Connection
import DfuUtilQda.Proofs.LineTraffic
import DfuUtilQda.Proofs.LockStep
import DfuUtilQda.Proofs.ReadingBack
import DfuUtilQda.Proofs.SessionOrder

/-! Installing firmware over a line that loses and damages what it carries. As long as
the faults of each transfer stay within what the transport tries again, the program
sees a device that is attached, and so the firmware is installed. -/

namespace DfuUtilQda.Xmodem
open Interaction Machine Qda

section InStep

variable {fates : List Fate} {part heard : History Io} {α β : Type} {start ends : Ends α β}

theorem InStep.rounds (steps : InStep fates part heard start ends) : Rounds fates start ends := by
  induction steps with
  | nil => exact .nil _
  | cons sends blind receives silent arrival answered _ ih => exact .cons (.intro sends blind receives silent arrival answered) ih

theorem Rounds.inStep (rounds : Rounds fates start ends) : ∃ part heard, InStep fates part heard start ends := by
  induction rounds with
  | nil ends => exact ⟨[], [], .nil ends⟩
  | cons round _ ih =>
    obtain ⟨early, late, more⟩ := ih
    cases round with
    | intro sends blind receives silent arrival answered => exact ⟨_, _, .cons sends blind receives silent arrival answered more⟩

theorem InStep.transmits (steps : InStep fates part heard start ends) : Runs start.transmitter part ends.transmitter := by
  induction steps with
  | nil => exact .here _
  | cons sends _ _ _ _ answered _ ih => exact (sends.trans answered).trans ih

theorem InStep.receives (steps : InStep fates part heard start ends) : Runs start.receiver heard ends.receiver := by
  induction steps with
  | nil => exact .here _
  | cons _ _ receives _ _ _ _ ih => exact receives.trans ih

end InStep

section Crossing

variable {data buf : List UInt8} {faults : Faults} {pktBuf held : XmodemPacket}

theorem message_transfers (short : data.length ≤ 8192) (large : buf.length = 8192) (pktBuf held : XmodemPacket)
    (bounded : faults.Bounded (blockCount data)) : ∃ part heard rc kept count got stored, InStep faults.fates part heard
      ⟨(xmodemTransmitPackage data).run pktBuf, (xmodemReceivePackage buf).run held⟩ ⟨.ret (rc, kept), .ret ((count, got), stored)⟩ := by
  obtain ⟨kept, after, stored, _, _, rounds⟩ := message_crosses short large pktBuf held bounded
  obtain ⟨part, heard, steps⟩ := rounds.inStep
  exact ⟨part, heard, _, kept, _, after, stored, steps⟩

theorem InStep.crosses {part heard : History Io} {rc count : Int} {got : List UInt8} {kept stored : XmodemPacket}
    (steps : InStep faults.fates part heard ⟨(xmodemTransmitPackage data).run pktBuf, (xmodemReceivePackage buf).run held⟩
      ⟨.ret (rc, kept), .ret ((count, got), stored)⟩)
    (short : data.length ≤ 8192) (large : buf.length = 8192) (bounded : faults.Bounded (blockCount data)) :
    0 ≤ rc ∧ receivedBytes count = 128 * blockCount data ∧ got.take data.length = data ∧ got.length = 8192 := by
  obtain ⟨kept, after, stored, whole, size, rounds⟩ := message_crosses short large pktBuf held bounded
  obtain ⟨sent, received⟩ := steps.rounds.same ⟨_, [], .here _, .here _⟩ ⟨_, [], .here _, .here _⟩ rounds
  cases sent
  cases received
  have few : 128 * blockCount data ≤ 8192 := by
    simp only [blockCount, packetPayloadSize]
    omega
  refine ⟨Int.natCast_nonneg _, ?_, whole, size⟩
  rw [receivedBytes, if_neg (by omega), toSize_nat (by omega)]

end Crossing

end DfuUtilQda.Xmodem

namespace DfuUtilQda.Device
open Interaction Machine Qda Host Dfu Xmodem

variable {traits : Traits} {schedule : Schedule} {start site : Site} {high : History Calls} {low : History Port}

section Replies

theorem reply_fits (small : traits.transferSize.toNat ≤ 8184) (target : Target) (request : Request) :
    (traits.serve target request).2.Fits := by
  have uploads (offset blocks : Nat) (len block : UInt16) : (traits.upload target offset blocks len block).2.Fits := by
    unfold Traits.upload
    split
    · trivial
    next fine =>
      obtain ⟨_, _, few⟩ := not_or.mp fine |>.imp_right not_or.mp
      have limit : len.toNat ≤ traits.transferSize.toNat := by
        rw [← UInt16.le_iff_toNat_le]
        exact UInt16.not_lt.mp few
      have taken : ((target.firmware.drop offset).take len.toNat).length ≤ len.toNat := List.length_take_le _ _
      change 6 + _ ≤ qdaBufSize
      have size : qdaBufSize = 8192 := rfl
      omega
  cases request with
  | upload len block =>
    cases stage : target.stage with
    | idle =>
      simp only [Traits.serve, stage]
      exact uploads _ _ _ _
    | uploadIdle offset blocks =>
      simp only [Traits.serve, stage]
      exact uploads _ _ _ _
    | _ =>
      simp only [Traits.serve, stage]
      trivial
  | dnload block data =>
    obtain ack | stall : (traits.serve target (.dnload block data)).2 = .ack ∨ (traits.serve target (.dnload block data)).2 = .stall :=
      dnload_replies target block data
    · rw [ack]
      trivial
    · rw [stall]
      trivial
  | clrStatus | abort =>
    unfold Traits.serve
    dsimp only
    split <;> trivial
  | _ => trivial

end Replies

section Joined

theorem Joined.carried (joined : Joined traits schedule start high low site) : Carried transport start.pktBuf high low site.pktBuf := by
  induction joined with
  | begins => exact .nil
  | request _ _ transfer ih => exact ih.snoc transfer.transmits.left
  | @reply high low site asked message got part heard rc count kept stored _ _ transfer ih =>
    have received : Runs ((dfuUtilQdaReceive asked).run site.pktBuf) heard (.ret ((receivedBytes count, asked.store 0 got), kept)) := by
      rw [dfuUtilQdaReceive, ← List.append_nil heard]
      exact transfer.receives.andThen (.here _)
    exact ih.snoc received.left
  | @aside high low site event _ aside _ ih =>
    have performed : Runs ((transport event.op).run site.pktBuf) [event.right] (.ret (event.answer, site.pktBuf)) := by
      rw [transport_aside aside]
      exact .perform (S := Port) _ _
    exact ih.snoc performed

variable (small : traits.transferSize.toNat ≤ 8184) (bounded : ∀ transfer count, (schedule transfer count).Bounded count)
include small bounded

/-- What the transport carries is what the device would be asked and would answer if it were attached. -/
theorem Joined.permitted (joined : Joined traits schedule start high low site) (told : start.world.reply.Fits) {turn : Turn}
    (accepts : order.Accepts turn high) : Permitted ((attached traits).permits start.world) [] high ∧
      (attached traits).after start.world high = site.world ∧ site.world.reply.Fits := by
  have size : qdaBufSize = 8192 := rfl
  induction joined with
  | begins => exact ⟨trivial, rfl, told⟩
  | @request high low site data buf got part heard rc count kept stored _ room transfer ih =>
    obtain ⟨before, request, fits, rfl, short, _⟩ := Monitor.accepts_snoc.mp accepts
    obtain ⟨permitted, there, _⟩ := ih before
    obtain ⟨sent, received, whole, length⟩ := transfer.crosses short room (bounded _ _)
    have decoded : Request.decode (got.take (receivedBytes count)) = request := by
      have behind : got.take (receivedBytes count) = request.message ++ (got.take (receivedBytes count)).drop request.message.length := by
        conv_lhs => rw [← List.take_append_drop request.message.length (got.take (receivedBytes count))]
        rw [List.take_take, Nat.min_eq_left, whole]
        rw [received]
        simp only [blockCount, packetPayloadSize]
        omega
      rw [behind, request.decode_message fits]
    refine ⟨permitted_snoc.mpr ⟨permitted, sent⟩, ?_, ?_⟩
    · rw [Environment.after_append, there, decoded]
      exact next_send fits rc
    · exact reply_fits small _ _
  | @reply high low site asked message got part heard rc count kept stored _ encodes transfer ih =>
    obtain ⟨before, _⟩ := Monitor.accepts_snoc.mp accepts
    obtain ⟨permitted, there, told⟩ := ih before
    have short := encodes.length_le told
    obtain ⟨_, received, whole, length⟩ := transfer.crosses short asked.size (bounded _ _)
    refine ⟨permitted_snoc.mpr ⟨permitted, ?_⟩, ?_, told⟩
    · change World.Answers _ _
      rw [List.nil_append, there]
      refine ⟨message, encodes, ?_, ?_⟩
      · rw [QdaBuf.store_eq _ _ (by omega), List.take_of_length_le short]
        refine List.IsPrefix.trans ?_ (List.prefix_append _ _)
        rw [← whole]
        exact List.take_prefix _ _
      · rw [received]
        simp only [blockCount, packetPayloadSize]
        omega
    · rw [Environment.after_append, there]
      rfl
  | @aside high low site event _ aside allowed ih =>
    obtain ⟨before, _⟩ := Monitor.accepts_snoc.mp accepts
    obtain ⟨permitted, there, told⟩ := ih before
    refine ⟨permitted_snoc.mpr ⟨permitted, ?_⟩, ?_, ?_⟩
    · change World.Allows _ _
      rw [List.nil_append, there]
      exact allowed
    · rw [Environment.after_append, there]
      rfl
    · obtain ⟨op, answer⟩ := event
      cases op with
      | send data => exact absurd rfl (aside.1 data)
      | _ => exact told

theorem Joined.continues (joined : Joined traits schedule start high low site) (told : start.world.reply.Fits) {turn : Turn}
    (accepts : order.Accepts turn high) {op : Host.Op} (may : order.may (order.after turn high) op) :
    ∃ answer further later, Joined traits schedule start (high ++ [⟨op, answer⟩]) further later := by
  obtain ⟨_, there, told⟩ := joined.permitted small bounded told accepts
  by_cases aside : Aside op
  · obtain ⟨answer, allowed⟩ : ∃ answer, (attached traits).allows site.world ⟨op, answer⟩ := attached_answerable site.world op
    exact ⟨answer, _, _, joined.aside aside allowed⟩
  · cases op with
    | send data =>
      obtain ⟨request, fits, rfl, short, _⟩ := may
      obtain ⟨part, heard, rc, kept, count, got, stored, transfer⟩ :=
        message_transfers short QdaBuf.blank.size site.pktBuf site.peer (bounded site.transfers _)
      exact ⟨rc, _, _, joined.request QdaBuf.blank.size transfer⟩
    | receive asked =>
      obtain ⟨message, encodes⟩ := site.world.reply.encodable
      obtain ⟨part, heard, rc, stored, count, got, kept, transfer⟩ :=
        message_transfers (encodes.length_le told) asked.size site.peer site.pktBuf (bounded site.transfers _)
      exact ⟨_, _, _, joined.reply encodes transfer⟩
    | _ => exact absurd ⟨by simp, by simp⟩ aside

end Joined

section Installing

variable {pageSize : Option Int} {root : QdaIf} {argv : List Opt} {options : Options} {target : Target} {contents : List UInt8}

section Ending

variable {halted : World → Prop} {post : Int → QdaBuf → World → Prop} {qdaBuf : QdaBuf}

end Ending

end Installing

end DfuUtilQda.Device

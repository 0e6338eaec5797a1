import DfuUtilQda.Link.LockStep
import DfuUtilQda.Proofs.ReceptionRuns
import DfuUtilQda.Proofs.Transmission

/-! A transfer over a lock-step link completes under bounded faults. The proof
follows the blocks: one simulates the transmitter's attempts by the receiver's
readings, and the receiver's error count never outgrows one unit's failures. -/

namespace DfuUtilQda.Xmodem
open Interaction Machine

variable {α β : Type}

theorem comparable {program first second : Program Io α} {early late : History Io}
    (one : Runs program early first) (other : Runs program late second) (told : outcomes early = outcomes late) :
    early <+: late ∨ late <+: early := by
  induction early generalizing program late with
  | nil => exact Or.inl List.nil_prefix
  | cons event early ih =>
    cases late with
    | nil => exact Or.inr List.nil_prefix
    | cons next late =>
      have op := one.same_op other
      obtain ⟨op₁, answer₁⟩ := event
      obtain ⟨op₂, answer₂⟩ := next
      cases op
      have same : answer₁ = answer₂ ∧ outcomes early = outcomes late := by
        cases op₁ with
        | getc => simpa using told
        | putc | setTimeout | fault => exact ⟨rfl, told⟩
      obtain ⟨rfl, further⟩ := same
      obtain ⟨middle, step, rest⟩ := @Runs.split _ _ _ _ [⟨op₁, answer₁⟩] early one
      cases late with
      | nil => exact Or.inr ⟨early, rfl⟩
      | cons =>
        obtain ordered | ordered := ih rest (step.continues other) further
        · exact Or.inl (List.cons_prefix_cons.mpr ⟨rfl, ordered⟩)
        · exact Or.inr (List.cons_prefix_cons.mpr ⟨rfl, ordered⟩)

private theorem same_until {program first second : Program Io α} {early late : History Io} {left right : Event Io}
    (one : Runs program (early ++ [left]) first) (other : Runs program (late ++ [right]) second)
    (told : outcomes early = outcomes late)
    (notEarly : right.op ∉ early.map Event.op) (notLate : left.op ∉ late.map Event.op) : early = late := by
  obtain ⟨_, before, _⟩ := one.split
  obtain ⟨_, behind, _⟩ := other.split
  rcases comparable before behind told with ⟨rest, rfl⟩ | ⟨rest, rfl⟩
  · cases rest with
    | nil => simp
    | cons event rest =>
      obtain ⟨middle, upto, later⟩ := one.split
      have longer : Runs program (early ++ event :: (rest ++ [right])) second := by simpa using other
      exact absurd (later.same_op (upto.continues longer)) (fun same => notLate (by simp [same]))
  · cases rest with
    | nil => simp
    | cons event rest =>
      obtain ⟨middle, upto, later⟩ := other.split
      have longer : Runs program (late ++ event :: (rest ++ [left])) first := by simpa using one
      exact absurd (later.same_op (upto.continues longer)) (fun same => notEarly (by simp [same]))

private theorem blind_ops {history : History Io} (blind : outcomes history = []) : Op.getc ∉ history.map Event.op := by
  intro member
  obtain ⟨⟨op, answer⟩, inside, rfl⟩ := List.mem_map.mp member
  have heard : answer ∈ outcomes history := List.mem_filterMap.mpr ⟨_, inside, rfl⟩
  simp [blind] at heard

private theorem silent_ops {history : History Io} (silent : emitted history = []) (ch : UInt8) :
    Op.putc ch ∉ history.map Event.op := by
  intro member
  obtain ⟨⟨op, answer⟩, inside, rfl⟩ := List.mem_map.mp member
  have said : ch ∈ emitted history := List.mem_filterMap.mpr ⟨_, inside, rfl⟩
  simp [silent] at said

/-- Two programs that have come out of the same run of the same program. -/
def Alike (left right : Program Io α) : Prop := ∃ program history, Runs program history left ∧ Runs program history right

theorem Alike.runs {left right rest : Program Io α} {event : Event Io} {later : History Io} (alike : Alike left right)
    (run : Runs right (event :: later) rest) : Runs left (event :: later) rest := by
  obtain ⟨program, history, one, other⟩ := alike
  exact one.continues (other.trans run)

theorem Round.same {fate : Fate} {one other : Ends α β} {left right : Ends α β}
    (transmitters : Alike one.transmitter other.transmitter) (receivers : Alike one.receiver other.receiver)
    (first : Round fate one left) (second : Round fate other right) :
    Alike left.transmitter right.transmitter ∧ Alike left.receiver right.receiver := by
  cases first with
  | @intro transmitter waiting resumed receiver replied sent heard reply sends blind receives silent arrival answered =>
  cases second with
  | @intro transmitter' waiting' resumed' receiver' replied' sent' heard' reply' sends' blind' receives' silent' arrival' answered' =>
  have moved : Runs transmitter (sent' ++ [hears (fate.returns reply')]) resumed' := by
    have run := sends'.trans answered'
    cases sent' with
    | nil => exact transmitters.runs run
    | cons => exact transmitters.runs run
  have heeded : Runs receiver (heard' ++ puts [reply']) replied' := by
    cases heard' with
    | nil => exact receivers.runs receives'
    | cons => exact receivers.runs receives'
  have unit : sent = sent' :=
    same_until (sends.trans answered) moved (blind.trans blind'.symm) (blind_ops blind) (blind_ops blind')
  subst unit
  have reading : heard = heard' :=
    same_until receives heeded (arrival.trans arrival'.symm) (silent_ops silent _) (silent_ops silent' _)
  subst reading
  have said : reply = reply' := by
    obtain ⟨middle, upto, later⟩ := receives.split
    have op := later.same_op (upto.continues heeded)
    cases op
    rfl
  subst said
  exact ⟨⟨transmitter, _, sends.trans answered, moved⟩, ⟨receiver, _, receives, heeded⟩⟩

theorem Rounds.same {fates : List Fate} {one other : Ends α β} {value found : α} {result outcome : β}
    (transmitters : Alike one.transmitter other.transmitter) (receivers : Alike one.receiver other.receiver)
    (first : Rounds fates one ⟨.ret value, .ret result⟩) (second : Rounds fates other ⟨.ret found, .ret outcome⟩) :
    value = found ∧ result = outcome := by
  generalize last : (⟨.ret value, .ret result⟩ : Ends α β) = ends at first
  induction first generalizing other with
  | nil =>
    subst last
    cases second with
    | nil =>
      obtain ⟨_, _, sent, sent'⟩ := transmitters
      obtain ⟨_, _, heard, heard'⟩ := receivers
      exact ⟨sent.same_value sent', heard.same_value heard'⟩
  | cons round _ ih =>
    cases second with
    | cons round' more' =>
      obtain ⟨transmitters, receivers⟩ := round.same transmitters receivers round'
      exact ih transmitters receivers more' last

/-- The same rounds seen from both ends: the transmitter's history and the receiver's readings. -/
inductive Exchanges : List Fate → History Io → List Reading → Prop where
  | nil : Exchanges [] [] []
  | cons {fate : Fate} {fates : List Fate} {unit : List UInt8} {history : History Io} {reading : Reading} {readings : List Reading}
      (arrival : reading.heard = fate.arrives unit) (rest : Exchanges fates history readings) :
      Exchanges (fate :: fates) (puts unit ++ hears (fate.returns reading.reply) :: history) (reading :: readings)

theorem Exchanges.append {fates more : List Fate} {history later : History Io} {readings further : List Reading}
    (first : Exchanges fates history readings) (second : Exchanges more later further) :
    Exchanges (fates ++ more) (history ++ later) (readings ++ further) := by
  induction first with
  | nil => exact second
  | cons arrival _ ih =>
    rw [List.append_assoc, List.cons_append]
    exact .cons arrival ih

/-- Two runs that fit together round by round are an execution of the link. -/
theorem Exchanges.rounds {fates : List Fate} {history dialogue : History Io} {readings : List Reading}
    {transmitter : Program Io α} {receiver : Program Io β} {value : α} {result : β}
    (exchanges : Exchanges fates history readings) (dialogues : Dialogue readings dialogue) (some_ : fates ≠ [])
    (sends : Runs transmitter history (.ret value)) (receives : Runs receiver dialogue (.ret result)) :
    Rounds fates ⟨transmitter, receiver⟩ ⟨.ret value, .ret result⟩ := by
  induction exchanges generalizing transmitter receiver dialogue with
  | nil => exact absurd rfl some_
  | @cons fate fates unit history reading readings arrival rest ih =>
    cases dialogues with
    | @cons _ _ heard later arrived silent more =>
    obtain ⟨waiting, sent, answered⟩ := sends.split
    have wire : emitted (puts unit) = unit := emitted_puts unit
    cases rest with
    | nil =>
      cases more with
      | nil =>
        rw [List.append_nil] at receives
        exact .cons (.intro sent (outcomes_puts unit) receives silent (by rw [arrived, arrival, wire]) answered) (.nil _)
    | cons further rest =>
      obtain ⟨resumed, told, onward⟩ := @Runs.split _ _ _ _ [_] _ answered
      obtain ⟨replied, receives, after⟩ := receives.split
      exact .cons (.intro sent (outcomes_puts unit) receives silent (by rw [arrived, arrival, wire]) told)
        (ih more (by simp) onward after)

section Receiver

variable {room : Nat} {before : List Reading} {taken : List Frame}

/-- The attempts to send one unit, the last of which is acknowledged, and the session they lead to. -/
structure Trial (room : Nat) (before : List Reading) (fates : List Fate) (unit : List UInt8) (readings : List Reading)
    (taken : List Frame) (answers : List (Option UInt8)) : Prop where
  exchanges : Exchanges fates (copies unit (answers ++ [some ack])) readings
  refused : ∀ answer ∈ answers, answer ≠ some ack
  count : answers.length + 1 = fates.length
  session : Session room (before ++ readings) taken
  going : Open (before ++ readings)

private theorem Trial.again {fate : Fate} {fates : List Fate} {unit : List UInt8} {reading : Reading} {readings : List Reading}
    {answers : List (Option UInt8)} (trial : Trial room (before ++ [reading]) fates unit readings taken answers)
    (arrival : reading.heard = fate.arrives unit) (failed : fate.returns reading.reply ≠ some ack) :
    Trial room before (fate :: fates) unit (reading :: readings) taken (fate.returns reading.reply :: answers) where
  exchanges := by simpa [copies] using Exchanges.cons arrival trial.exchanges
  refused := List.forall_mem_cons.mpr ⟨failed, trial.refused⟩
  count := by simp [trial.count]
  session := by simpa using trial.session
  going := by simpa using trial.going

private theorem Trial.last {unit : List UInt8} {reading : Reading} (arrival : reading.heard = unit.map some)
    (acked : reading.reply = ack) (session : Session room (before ++ [reading]) taken) (open_ : Open (before ++ [reading])) :
    Trial room before [Fate.delivered] unit [reading] taken [] where
  exchanges := by simpa [copies, Fate.delivered, acked] using
    @Exchanges.cons Fate.delivered _ _ _ _ _ arrival .nil
  refused := by simp
  count := rfl
  session := session
  going := open_

private theorem nak_not_ack (accepted : Nat) (lost : Bool) :
    (if lost then none else some (replyTo accepted .err)) ≠ some ack := by
  cases lost with
  | true => simp
  | false => by_cases fresh : accepted = 0 <;> simp [replyTo, fresh, ack, charC, Xmodem.nak]

private theorem absorbs {frame : Frame} {failed : List Fate}
    (fails : ∀ fate ∈ failed, fate.Fails) (session : Session room before taken) (open_ : Open before)
    (patient : errorRun before + failed.length < maxRxErrors)
    (duplicate : ∀ len, frame.verdict (UInt8.ofNat (taken.length + 1)) len = .dup) :
    ∃ readings answers, Trial room before (failed ++ [Fate.delivered]) frame.bytes readings taken answers ∧
      errorRun (before ++ readings) ≤ errorRun before + failed.length := by
  have read (len : Nat) : ReadsPkt (UInt8.ofNat (taken.length + 1)) len (frame.bytes.map some) .dup [] := by
    have refused : ReadsPkt (UInt8.ofNat (taken.length + 1)) len _ _ _ := .refused frame (by rw [duplicate len]; simp)
    rwa [duplicate len] at refused
  induction failed generalizing before with
  | nil =>
    obtain ⟨session, open_⟩ := session.extends open_ patient (read _) (by simp)
    rw [List.append_nil] at session
    exact ⟨_, [], .last rfl rfl session open_, by simp⟩
  | cons fate failed ih =>
    have later := List.forall_mem_cons.mp fails
    simp only [List.length_cons] at patient
    rcases later.1 with rfl | ⟨heard, lost, garbled, rfl⟩
    · obtain ⟨session, open_⟩ := session.extends open_ (by omega) (read _) (by simp)
      rw [List.append_nil] at session open_
      obtain ⟨readings, answers, trial, errors⟩ := ih later.2 session open_ (by simp; omega)
      refine ⟨_, _, trial.again rfl (by simp [Fate.unanswered]), ?_⟩
      simp at errors ⊢
      omega
    · obtain ⟨session, open_⟩ := session.extends open_ (by omega) (garbled _ _) (by simp)
      rw [List.append_nil] at session open_
      obtain ⟨readings, answers, trial, errors⟩ := ih later.2 session open_ (by simp; omega)
      refine ⟨_, _, trial.again rfl (nak_not_ack _ lost), ?_⟩
      simp at errors ⊢
      omega

/-- A block is accepted once, however its attempts fail before and after that. -/
private theorem accepts {frame : Frame} {failed : List Fate}
    (fails : ∀ fate ∈ failed, fate.Fails) (session : Session room before taken) (open_ : Open before)
    (patient : errorRun before + failed.length < maxRxErrors)
    (intact : frame.intact = true) (number : frame.seqNo = UInt8.ofNat (taken.length + 1))
    (fits : packetPayloadSize * (taken.length + 1) ≤ room) (few : taken.length < 254) :
    ∃ readings answers, Trial room before (failed ++ [Fate.delivered]) frame.bytes readings (taken ++ [frame]) answers ∧
      errorRun (before ++ readings) ≤ failed.length := by
  have verdict : frame.verdict (UInt8.ofNat (taken.length + 1)) (room - packetPayloadSize * taken.length) = .soh := by
    refine XmodemPacket.verdict_soh.mpr ⟨intact, number, ?_⟩
    simp only [packetPayloadSize] at fits ⊢
    omega
  have read : ReadsPkt (UInt8.ofNat (taken.length + 1)) (room - packetPayloadSize * taken.length)
      (frame.bytes.map some) .soh [frame] := .taken frame verdict
  have duplicate (len : Nat) : frame.verdict (UInt8.ofNat ((taken ++ [frame]).length + 1)) len = .dup := by
    refine XmodemPacket.verdict_dup intact ?_
    rw [number]
    simp
    omega
  induction failed generalizing before with
  | nil =>
    obtain ⟨session, open_⟩ := session.extends open_ patient read (by simp)
    exact ⟨_, [], .last rfl rfl session open_, by simp⟩
  | cons fate failed ih =>
    have later := List.forall_mem_cons.mp fails
    simp only [List.length_cons] at patient
    rcases later.1 with rfl | ⟨heard, lost, garbled, rfl⟩
    · obtain ⟨session, open_⟩ := session.extends open_ (by omega) read (by simp)
      obtain ⟨readings, answers, trial, errors⟩ := absorbs later.2 session open_ (by simp; omega) duplicate
      refine ⟨_, _, trial.again rfl (by simp [Fate.unanswered]), ?_⟩
      simp at errors ⊢
      omega
    · obtain ⟨session, open_⟩ := session.extends open_ (by omega) (garbled _ _) (by simp)
      rw [List.append_nil] at session open_
      obtain ⟨readings, answers, trial, errors⟩ := ih later.2 session open_ (by simp; omega)
      refine ⟨_, _, trial.again rfl (nak_not_ack _ lost), ?_⟩
      simp at errors ⊢
      omega

private theorem ends {failed : List Fate} (fails : ∀ fate ∈ failed, fate.Spoils) (session : Session room before taken)
    (open_ : Open before) (patient : errorRun before + failed.length < maxRxErrors) :
    ∃ readings answers, Exchanges (failed ++ [Fate.delivered]) (copies [eot] (answers ++ [some ack]))
        (readings ++ [⟨[some eot], .eot, ack⟩]) ∧
      (∀ answer ∈ answers, answer ≠ some ack) ∧ answers.length = failed.length ∧
      Session room (before ++ readings) taken ∧ Open (before ++ readings) ∧ errorRun (before ++ readings) < maxRxErrors := by
  induction failed generalizing before with
  | nil =>
    refine ⟨[], [], ?_, by simp, rfl, by simpa using session, by simpa using open_, by simpa using patient⟩
    exact @Exchanges.cons Fate.delivered _ [eot] _ ⟨[some eot], .eot, ack⟩ _ rfl .nil
  | cons fate failed ih =>
    have later := List.forall_mem_cons.mp fails
    simp only [List.length_cons] at patient
    obtain ⟨heard, lost, garbled, rfl⟩ := later.1
    obtain ⟨session, open_⟩ := session.extends open_ (by omega) (garbled _ _) (by simp)
    rw [List.append_nil] at session open_
    obtain ⟨readings, answers, exchanges, refused, count, session, open_, bound⟩ := ih later.2 session open_ (by simp; omega)
    refine ⟨_ :: readings, (Fate.spoiled heard lost).returns (replyTo taken.length .err) :: answers, ?_,
      List.forall_mem_cons.mpr ⟨nak_not_ack taken.length lost, refused⟩,
      by simp [count], by simpa using session, by simpa using open_, by simpa using bound⟩
    simpa [copies] using
      @Exchanges.cons (Fate.spoiled heard lost) _ [eot] _ ⟨heard, .err, replyTo taken.length .err⟩ _ rfl exchanges

theorem Answered.after {wanted : UInt8} {tries : Nat} {answers : List (Option UInt8)}
    (others : ∀ answer ∈ answers, answer ≠ some wanted) (few : answers.length < tries) :
    Answered wanted tries (answers ++ [some wanted]) true := by
  obtain ⟨tries, rfl⟩ : ∃ less, tries = less + 1 := ⟨tries - 1, by omega⟩
  induction answers generalizing tries with
  | nil => exact .heard
  | cons answer answers ih =>
    have later := List.forall_mem_cons.mp others
    simp only [List.length_cons] at few
    obtain ⟨tries, rfl⟩ : ∃ less, tries = less + 1 := ⟨tries - 1, by omega⟩
    exact .other later.1 (ih later.2 tries (by omega))

/-- Block by block: the transmitter gets every block acknowledged and the receiver has each of them once. -/
private theorem blocks_complete {blocks : List (List Fate)}
    (fails : ∀ failed ∈ blocks, failed.length < maxRetransmit ∧ ∀ fate ∈ failed, Fate.Fails fate)
    (pktBuf : XmodemPacket) (data : List UInt8) (whole : blocks.length = blockCount data)
    (session : Session room before taken) (open_ : Open before) (patient : errorRun before < maxRetransmit)
    (fits : packetPayloadSize * (taken.length + blocks.length) ≤ room) (few : taken.length + blocks.length < 254) :
    ∃ history kept readings new,
      SendsBlocks pktBuf data (UInt8.ofNat (taken.length + 1)) history
        (some (UInt8.ofNat (taken.length + blocks.length + 1))) kept ∧
      Exchanges (blocks.flatMap (· ++ [Fate.delivered])) history readings ∧
      Session room (before ++ readings) (taken ++ new) ∧ Open (before ++ readings) ∧
      errorRun (before ++ readings) < maxRetransmit ∧
      new.length = blocks.length ∧ (payloads new).take data.length = data := by
  induction blocks generalizing pktBuf data before taken with
  | nil =>
    obtain rfl : data = [] := by
      have none : blockCount data = 0 := whole.symm
      simp only [blockCount, packetPayloadSize] at none
      exact List.eq_nil_of_length_eq_zero (by omega)
    exact ⟨[], pktBuf, [], [], .done, .nil, by simpa using session, by simpa using open_, by simpa using patient, rfl, rfl⟩
  | cons failed blocks ih =>
    have later := List.forall_mem_cons.mp fails
    simp only [List.length_cons] at whole fits few
    have more : data ≠ [] := by
      rintro rfl
      simp [blockCount, packetPayloadSize] at whole
    have short : (data.take packetPayloadSize).length ≤ 128 := List.length_take_le _ _
    let frame : Frame := ⟨pktBuf.fill (data.take packetPayloadSize) (UInt8.ofNat (taken.length + 1)),
      pktBuf.fill_marked _ _ short⟩
    obtain ⟨readings, answers, trial, errors⟩ := @accepts room before taken frame failed later.1.2 session open_
      (by simp only [maxRetransmit, maxRxErrors] at *; omega) (pktBuf.fill_intact _ _ short) (pktBuf.fill_seqNo _ _ short)
      (by simp only [packetPayloadSize] at *; omega) (by omega)
    have tried := trial.count
    have acked : Answered ack maxRetransmit (answers ++ [some ack]) true := .after trial.refused (by
      simp only [List.length_append, List.length_singleton] at tried
      omega)
    have left : blocks.length = blockCount (data.drop packetPayloadSize) := by
      simp only [blockCount, packetPayloadSize, List.length_drop] at whole ⊢
      omega
    obtain ⟨history, kept, readings', new, sent, exchanges, session, open_, patient, count, rest⟩ :=
      ih later.2 frame.toXmodemPacket (data.drop packetPayloadSize) left trial.session trial.going
        (by omega) (by simp only [packetPayloadSize, List.length_append, List.length_singleton] at *; omega)
        (by simp only [List.length_append, List.length_singleton]; omega)
    refine ⟨_, kept, readings ++ readings', frame :: new, ?_, trial.exchanges.append exchanges, by simpa using session,
      by simpa using open_, by simpa using patient, by simp [count], ?_⟩
    · have next : UInt8.ofNat (taken.length + 1) + 1 = UInt8.ofNat ((taken ++ [frame]).length + 1) := by simp
      have last : (taken ++ [frame]).length + blocks.length + 1 = taken.length + (blocks.length + 1) + 1 := by simp; omega
      rw [last, ← next] at sent
      exact .sent more acked sent
    · have block : frame.data.take data.length = data.take packetPayloadSize := pktBuf.fill_block data _
      have length : frame.data.length = packetPayloadSize := frame.data_length
      rw [payloads, List.flatMap_cons, List.take_append, block, length, ← List.length_drop]
      exact (congrArg _ rest).trans (List.take_append_drop _ _)

end Receiver

private theorem unheard_exchanges (lost : Nat) :
    Exchanges (List.replicate lost (Fate.spoiled [none] true) ++ [Fate.spoiled [none] false])
      ((List.replicate lost none ++ [some charC]).map hears) (List.replicate (lost + 1) unheard) := by
  induction lost with
  | zero => exact @Exchanges.cons (Fate.spoiled [none] false) _ [] _ unheard _ rfl .nil
  | succ lost ih => exact @Exchanges.cons (Fate.spoiled [none] true) _ [] _ unheard _ rfl ih

private theorem opening {lost : Bool} {fates : List Fate} {history dialogue : History Io} {readings : List Reading}
    {transmitter : Program Io α} {receiver : Program Io β} {value : α} {result : β}
    (exchanges : Exchanges fates history readings) (dialogues : Dialogue readings dialogue) (some_ : fates ≠ [])
    (sends : Runs transmitter (⟨.setTimeout timeoutStd, ()⟩ :: hears (if lost then none else some charC) :: history) (.ret value))
    (receives : Runs receiver (⟨.setTimeout timeoutStd, ()⟩ :: (puts [charC] ++ dialogue)) (.ret result)) :
    Rounds (Fate.spoiled [] lost :: fates) ⟨transmitter, receiver⟩ ⟨.ret value, .ret result⟩ := by
  obtain ⟨waiting, ready, sends⟩ := @Runs.split _ _ _ _ [_] _ sends
  obtain ⟨resumed, told, sends⟩ := @Runs.split _ _ _ _ [_] _ sends
  obtain ⟨replied, asks, receives⟩ := @Runs.split _ _ _ _ ([_] ++ puts [charC]) _ receives
  exact .cons (.intro ready rfl asks rfl rfl told) (exchanges.rounds dialogues some_ sends receives)

private theorem starting {lost : Nat} {fates : List Fate} {history dialogue : History Io} {readings : List Reading}
    {transmitter : Program Io α} {receiver : Program Io β} {value : α} {result : β}
    (exchanges : Exchanges fates history readings) (dialogues : Dialogue (List.replicate lost unheard ++ readings) dialogue)
    (some_ : fates ≠ [])
    (sends : Runs transmitter (⟨.setTimeout timeoutStd, ()⟩ :: (List.replicate lost none ++ [some charC]).map hears ++ history)
      (.ret value))
    (receives : Runs receiver (⟨.setTimeout timeoutStd, ()⟩ :: (puts [charC] ++ dialogue)) (.ret result)) :
    Rounds (Fate.starts lost ++ fates) ⟨transmitter, receiver⟩ ⟨.ret value, .ret result⟩ := by
  cases lost with
  | zero => exact @opening _ _ false _ _ _ _ _ _ _ _ exchanges dialogues some_ sends receives
  | succ lost =>
    exact @opening _ _ true _ _ _ _ _ _ _ _ ((unheard_exchanges lost).append exchanges) dialogues (by simp) sends receives

/-- A message goes over the link into a buffer with room for it, and all of the buffer is still there. -/
private theorem crosses {data buf : List UInt8} (short : data.length ≤ 8192) (room : packetPayloadSize * blockCount data ≤ buf.length)
    (memory : buf.length < 2 ^ 64) (pktBuf held : XmodemPacket) {faults : Faults} (bounded : faults.Bounded (blockCount data)) :
    ∃ kept after stored, after.take data.length = data ∧ after.length = buf.length ∧
      Rounds faults.fates ⟨(xmodemTransmitPackage data).run pktBuf, (xmodemReceivePackage buf).run held⟩
        ⟨.ret (packetPayloadSize * blockCount data, kept), .ret ((packetPayloadSize * blockCount data, after), stored)⟩ := by
  have few : blockCount data ≤ 64 := by
    simp only [blockCount, packetPayloadSize]
    omega
  have size : toSize buf.length = buf.length := toSize_nat memory
  have starts := bounded.starts
  obtain ⟨session, open_, errors⟩ := unheard_session (toSize buf.length) faults.lost
    (by simp only [maxRetransmit, maxRxErrors] at *; omega)
  obtain ⟨blocks, kept, readings, new, sent, exchanges, session, open_, patient, count, whole⟩ :=
    blocks_complete bounded.blocks pktBuf data bounded.count session open_ (by omega)
      (by rw [size, bounded.count]; simpa using room) (by rw [bounded.count]; simp; omega)
  obtain ⟨last, answers, exchanges', refused, tried, session, open_, patient⟩ := ends bounded.eots.2 session open_
    (by have eots := bounded.eots.1; simp only [maxRetransmit, maxRxErrors] at *; omega)
  rw [List.nil_append] at session
  have counted := count.trans bounded.count
  obtain ⟨dialogue, stored, dialogues, receives⟩ := session.call_occurs open_
    (by rw [counted]; simp only [packetPayloadSize]; omega) patient held
  have started : Answered charC maxRetransmit (List.replicate faults.lost none ++ [some charC]) true :=
    .after (by simp) (by simpa using starts)
  have ended : Answered ack maxRetransmit (answers ++ [some ack]) true := .after refused (tried ▸ bounded.eots.1)
  have sends := (runs_transmitPackage _ _ _ _ _).mpr (Transmits.finished started sent ended)
  have total : ((UInt8.ofNat (([] : List Frame).length + faults.blocks.length + 1)).toNat - 1 : Int) * 128 =
      packetPayloadSize * blockCount data := by
    rw [bounded.count]
    simp [packetPayloadSize]
    omega
  rw [if_pos rfl, total, List.append_assoc] at sends
  rw [counted] at receives
  have run := starting (exchanges.append exchanges') (by simpa using dialogues) (by simp) sends receives
  have length := payloads_length new
  rw [counted] at length
  refine ⟨kept, _, stored, ?_, ?_, run⟩
  · rw [contents, List.take_append_of_le_length, whole]
    rw [length]
    simp only [blockCount, packetPayloadSize]
    omega
  · rw [contents, List.length_append, List.length_drop, length, counted]
    exact Nat.add_sub_of_le room

/-- Whatever faults the link has within the retry budgets, and however they are spread over the
rounds: both ends come to their end, and the receiver has the whole message. -/
theorem transfer_completes (data buf : List UInt8) (short : data.length ≤ 8192)
    (room : packetPayloadSize * blockCount data ≤ buf.length) (memory : buf.length < 2 ^ 64) (pktBuf held : XmodemPacket)
    (faults : Faults) (bounded : faults.Bounded (blockCount data)) :
    ∃ (total : Int) (kept : XmodemPacket) (after : List UInt8) (stored : XmodemPacket),
      total = packetPayloadSize * blockCount data ∧ after.take data.length = data ∧
      Rounds faults.fates ⟨(xmodemTransmitPackage data).run pktBuf, (xmodemReceivePackage buf).run held⟩
        ⟨.ret (total, kept), .ret ((total, after), stored)⟩ ∧
      ∀ sent received,
        Rounds faults.fates ⟨(xmodemTransmitPackage data).run pktBuf, (xmodemReceivePackage buf).run held⟩
          ⟨.ret sent, .ret received⟩ →
        sent = (total, kept) ∧ received = ((total, after), stored) := by
  obtain ⟨kept, after, stored, whole, _, run⟩ := crosses short room memory pktBuf held bounded
  refine ⟨_, kept, after, stored, rfl, whole, run, ?_⟩
  intro sent received other
  exact other.same ⟨_, [], .here _, .here _⟩ ⟨_, [], .here _, .here _⟩ run

theorem message_crosses {data buf : List UInt8} (short : data.length ≤ 8192) (large : buf.length = 8192) (pktBuf held : XmodemPacket)
    {faults : Faults} (bounded : faults.Bounded (blockCount data)) :
    ∃ kept after stored, after.take data.length = data ∧ after.length = 8192 ∧
      Rounds faults.fates ⟨(xmodemTransmitPackage data).run pktBuf, (xmodemReceivePackage buf).run held⟩
        ⟨.ret ((128 * blockCount data : Nat), kept), .ret (((128 * blockCount data : Nat), after), stored)⟩ := by
  have room : packetPayloadSize * blockCount data ≤ buf.length := by
    simp only [blockCount, packetPayloadSize]
    omega
  rw [← large]
  exact crosses short room (by omega) pktBuf held bounded

/-- Two blocks over a link on which every unit fails at least once. -/
def troubled : Faults where
  lost := 2
  blocks := [[.unanswered, .spoiled [none] true], [.spoiled [none] false, .unanswered]]
  eots := [.spoiled [none] false, .spoiled [none] true]

theorem troubled_transfer_completes : ∃ kept after stored, after.take 200 = List.replicate 200 7 ∧
    Rounds troubled.fates
      ⟨(xmodemTransmitPackage (List.replicate 200 7)).run .blank, (xmodemReceivePackage (List.replicate 256 0)).run .blank⟩
      ⟨.ret (256, kept), .ret ((256, after), stored)⟩ := by
  have spoils (lost : Bool) : (Fate.spoiled [none] lost).Spoils := ⟨[none], lost, fun _ _ => .timeout, rfl⟩
  have fails (lost : Bool) : (Fate.spoiled [none] lost).Fails := Or.inr (spoils lost)
  have unanswered : Fate.unanswered.Fails := Or.inl rfl
  have count : blockCount (List.replicate 200 (7 : UInt8)) = 2 := by
    rw [blockCount, List.length_replicate]
    rfl
  have bounded : troubled.Bounded (blockCount (List.replicate 200 (7 : UInt8))) := by
    rw [count]
    exact ⟨by decide, rfl, by simp [troubled, maxRetransmit, fails, unanswered], by decide, by simp [troubled, spoils]⟩
  obtain ⟨total, kept, after, stored, rfl, whole, run, _⟩ := transfer_completes (List.replicate 200 7) (List.replicate 256 0)
    (by rw [List.length_replicate]; decide) (by rw [count, List.length_replicate]; decide)
    (by rw [List.length_replicate]; decide) .blank .blank troubled bounded
  rw [List.length_replicate] at whole
  rw [count] at run
  exact ⟨kept, after, stored, whole, run⟩

end DfuUtilQda.Xmodem

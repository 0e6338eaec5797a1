import Mathlib.Data.List.Chain
import DfuUtilQda.Interaction.Performs
import DfuUtilQda.Proofs.ReceptionFaults

/-! What a receiver puts out, set beside what it reads: a request opens the call and each
packet read is answered once. A call that has met too many errors still asks for the
frame again, and then does not listen. -/

namespace DfuUtilQda.Xmodem
open Interaction Machine

/-- What happens while a packet is read: nothing is put out, and a byte is waited for first. -/
def Listening (history : History Io) : Prop :=
  emitted history = [] ∧ ∀ event, history.head? = some event → event.op = .getc

section Reading

/-- An operation that puts nothing out. -/
def Quiet (op : Op) : Prop := ∀ ch, op ≠ .putc ch

theorem emitted_quiet {history : History Io} (quiet : ∀ event ∈ history, Quiet event.op) : emitted history = [] := by
  apply List.filterMap_eq_nil_iff.mpr
  intro event member
  obtain ⟨op, answer⟩ := event
  have still := quiet _ member
  cases op with
  | putc ch => exact absurd rfl (still ch)
  | getc | setTimeout | fault => rfl

private theorem getc_quiet : Static.Performs Quiet xmodemGetc := .perform (S := Io) (by simp [Quiet])

private theorem setTimeout_quiet (ms : Nat) : Static.Performs Quiet (xmodemSetTimeout ms) :=
  .perform (S := Io) (by simp [Quiet])

private theorem readRest_quiet (count : Nat) : Static.Performs Quiet (readRest count) := by
  induction count with
  | zero => exact .pure _
  | succ count ih =>
    apply getc_quiet.bind
    intro answer
    cases answer with
    | none => exact .pure _
    | some ch => exact .bind (.modify _) fun _ => ih

private theorem discard_quiet : Static.Performs Quiet Xmodem.discard := by
  apply Static.Performs.loop
  intro _
  apply getc_quiet.bind
  intro answer
  cases answer <;> exact .pure _

private theorem checkPkt_quiet (expSeqNo : UInt8) (buf : List UInt8) (offset : Int) (len : Nat) :
    Static.Performs Quiet (checkPkt expSeqNo buf offset len) := by
  intro held
  rw [checkPkt_run]
  split
  · split
    · trivial
    · exact ⟨by simp [Quiet], fun _ => trivial⟩
  · trivial

theorem xmodemReadPkt_listens (expSeqNo : UInt8) (buf : List UInt8) (offset : Int) (len : Nat) (pktBuf : XmodemPacket) :
    wp Listening ((xmodemReadPkt expSeqNo buf offset len).run pktBuf) (fun _ => Listening) [] := by
  have stays (now : History Io) (event : Event Io) (quiet : Quiet event.op)
      (listening : Listening now ∧ now ≠ []) : Listening (now ++ [event]) ∧ now ++ [event] ≠ [] := by
    obtain ⟨⟨silent, first⟩, some_⟩ := listening
    have still : emitted [event] = [] := emitted_quiet (by simpa using quiet)
    refine ⟨⟨by simp [silent, still], ?_⟩, by simp⟩
    rwa [List.head?_append_of_ne_nil _ some_]
  rw [xmodemReadPkt, StateT.run_bind, wp_seq, wp_getc]
  refine ⟨⟨rfl, by simp⟩, fun answer => ⟨⟨rfl, by simp⟩, ?_⟩⟩
  apply wp.mono (Program.Performs.wp ?_ stays ⟨⟨rfl, by simp⟩, by simp⟩) (fun _ fine => fine.1) (fun _ _ fine _ => fine.1)
  cases answer with
  | none => trivial
  | some cmd =>
    dsimp only
    split
    · apply (readRest_quiet 132).bind
      intro complete
      split
      · exact checkPkt_quiet expSeqNo buf offset len
      · exact .pure _
    · split
      · trivial
      · exact ((setTimeout_quiet _).bind fun _ => discard_quiet.bind fun _ => (setTimeout_quiet _).bind fun _ => .pure _) pktBuf

end Reading

/-- Whatever comes next after a byte has been put out is a read. -/
def Heeded (history : History Io) : Prop :=
  history.IsChain fun event next => ¬Quiet event.op → next.op = .getc

/-- The call has opened, answered each of `readings` and heard `pending` since. -/
structure Conversed (room : Nat) (readings : List Reading) (taken : List Frame) (pending history : History Io) : Prop where
  session : Session room readings taken
  course : ∃ dialogue, Dialogue readings dialogue ∧
    history = ⟨.setTimeout timeoutStd, ()⟩ :: (puts [charC] ++ dialogue ++ pending)
  listening : Listening pending
  begun : pending ≠ [] → Open readings ∧ errorRun readings < maxRxErrors

/-- How far a call can have come: not yet opened, or in its conversation. -/
def Underway (room : Nat) (history : History Io) : Prop :=
  history <+: [⟨.setTimeout timeoutStd, ()⟩] ∨ ∃ readings taken pending, Conversed room readings taken pending history

/-- The receiver's loop at its head, with what the call has done until then. -/
structure AtRound (buf : List UInt8) (readings : List Reading) (taken : List Frame) (s : Reception) (now : History Io) :
    Prop extends AtHead buf readings taken s now where
  spoken : ∃ dialogue, Dialogue readings dialogue ∧
    now ++ puts [s.cmd] = ⟨.setTimeout timeoutStd, ()⟩ :: (puts [charC] ++ dialogue)
  underway : Underway (toSize buf.length) now
  heeded : Heeded now
  listened : ∀ event, now.getLast? = some event → Quiet event.op

theorem Session.errorRun_le {room : Nat} {readings : List Reading} {taken : List Frame} (session : Session room readings taken) :
    errorRun readings ≤ maxRxErrors := by
  cases session with
  | opened => simp [errorRun]
  | @read readings taken heard status new earlier open_ patient next =>
    rw [errorRun_snoc]
    cases status <;> simp only <;> omega

theorem heeded_quiet {history : History Io} (silent : emitted history = []) : Heeded history := by
  induction history with
  | nil => exact .nil
  | cons event history ih =>
    obtain ⟨op, answer⟩ := event
    cases op with
    | putc ch => cases silent
    | getc | setTimeout | fault =>
      apply List.isChain_cons.mpr
      exact ⟨fun _ _ loud => absurd (by simp [Quiet]) loud, ih silent⟩

theorem Heeded.speaks {now : History Io} (heeded : Heeded now) (listened : ∀ event, now.getLast? = some event → Quiet event.op)
    (ch : UInt8) : Heeded (now ++ puts [ch]) := by
  apply List.isChain_append.mpr
  refine ⟨heeded, .singleton _, ?_⟩
  intro event last _ _ loud
  exact absurd (listened event last) loud

section Round

variable {buf : List UInt8} {readings : List Reading} {taken : List Frame} {s : Reception} {now : History Io}

theorem AtRound.listens (round : AtRound buf readings taken s now) (patient : s.errCnt < maxRxErrors) {later : History Io}
    (waiting : Listening later) :
    Underway (toSize buf.length) (now ++ puts [s.cmd] ++ later) ∧ Heeded (now ++ puts [s.cmd] ++ later) := by
  obtain ⟨dialogue, dialogues, spoken⟩ := round.spoken
  constructor
  · refine Or.inr ⟨readings, taken, later, round.session, ⟨dialogue, dialogues, ?_⟩, waiting, fun _ => ?_⟩
    · rw [spoken]
      simp
    · exact ⟨round.going, round.errors ▸ patient⟩
  · apply List.isChain_append.mpr
    refine ⟨round.heeded.speaks round.listened s.cmd, heeded_quiet waiting.1, ?_⟩
    intro event _ next following _
    exact waiting.2 next following

theorem AtRound.answered (round : AtRound buf readings taken s now) {later : History Io} (waiting : Listening later)
    (reading : Reading) (arrival : outcomes later = reading.heard) :
    ∃ dialogue, Dialogue (readings ++ [reading]) dialogue ∧ now ++ puts [s.cmd] ++ later ++ puts [reading.reply] =
      ⟨.setTimeout timeoutStd, ()⟩ :: (puts [charC] ++ dialogue) := by
  obtain ⟨dialogue, dialogues, spoken⟩ := round.spoken
  refine ⟨_, dialogues.snoc reading arrival waiting.1, ?_⟩
  rw [spoken]
  simp

theorem listened_last {later : History Io} (waiting : Listening later) (some_ : outcomes later ≠ []) (event : Event Io)
    (last : (now ++ puts [s.cmd] ++ later).getLast? = some event) : Quiet event.op := by
  have member : event ∈ later := by
    have nonempty : later ≠ [] := by
      intro none_
      simp [none_] at some_
    rw [List.getLast?_append_of_ne_nil _ nonempty] at last
    exact List.mem_of_getLast? last
  obtain ⟨op, answer⟩ := event
  intro ch loud
  dsimp only at loud
  subst loud
  have said : ch ∈ emitted later := List.mem_filterMap.mpr ⟨_, member, rfl⟩
  rw [waiting.1] at said
  cases said

theorem AtRound.again (round : AtRound buf readings taken s now) (patient : s.errCnt < maxRxErrors) {later : History Io}
    {status : Status} {new : List Frame} {next : Reception} (waiting : Listening later)
    (read : ReadsPkt s.expSeqNo s.bufLen (outcomes later) status new)
    (head : AtHead buf (readings ++ [⟨outcomes later, status, replyTo (taken ++ new).length status⟩]) (taken ++ new) next
      (now ++ puts [s.cmd] ++ later)) :
    AtRound buf (readings ++ [⟨outcomes later, status, replyTo (taken ++ new).length status⟩]) (taken ++ new) next
      (now ++ puts [s.cmd] ++ later) where
  toAtHead := head
  spoken := by
    rw [head.replies]
    exact round.answered waiting _ rfl
  underway := (round.listens patient waiting).1
  heeded := (round.listens patient waiting).2
  listened := listened_last waiting read.heard_ne_nil

end Round

/-- A call that has put out its last byte. -/
structure Concluded (room : Nat) (readings : List Reading) (taken : List Frame) (history : History Io) : Prop where
  conversed : Conversed room readings taken [] history
  heeded : Heeded history
  closed : Closed readings

section Round

variable {buf : List UInt8} {readings : List Reading} {taken : List Frame} {s : Reception} {now : History Io}

theorem AtRound.closes (round : AtRound buf readings taken s now) (patient : s.errCnt < maxRxErrors) {later : History Io}
    {status : Status} {new : List Frame} (waiting : Listening later)
    (read : ReadsPkt s.expSeqNo s.bufLen (outcomes later) status new) (final : status = .eot ∨ status = .can) :
    Concluded (toSize buf.length) (readings ++ [⟨outcomes later, status, replyTo (taken ++ new).length status⟩]) (taken ++ new)
      (now ++ puts [s.cmd] ++ later ++ puts [replyTo (taken ++ new).length status]) where
  conversed := by
    refine ⟨round.reads patient read, ?_, ⟨rfl, by simp⟩, by simp⟩
    simpa using round.answered waiting ⟨outcomes later, status, replyTo (taken ++ new).length status⟩ rfl
  heeded := (round.listens patient waiting).2.speaks (listened_last waiting read.heard_ne_nil) _
  closed := by
    apply Or.inl
    intro open_
    have goes := open_ _ (List.mem_append_right _ (List.mem_singleton.mpr rfl))
    rcases final with rfl | rfl <;> simp at goes

theorem AtRound.exhausted (round : AtRound buf readings taken s now) (full : ¬s.errCnt < maxRxErrors) :
    Concluded (toSize buf.length) readings taken (now ++ puts [s.cmd]) where
  conversed := ⟨round.session, by simpa using round.spoken, ⟨rfl, by simp⟩, by simp⟩
  heeded := round.heeded.speaks round.listened _
  closed := by
    have most := round.session.errorRun_le
    have count := round.errors
    exact Or.inr (by omega)

theorem receiveRound_converses (round : AtRound buf readings taken s now) (pktBuf : XmodemPacket) :
    wp (fun now => Underway (toSize buf.length) now ∧ Heeded now) ((receiveRound s).run pktBuf) (fun outcome now =>
      match outcome.1 with
        | .inl s => ∃ readings taken, AtRound buf readings taken s now
        | .inr ended => ∃ readings taken, Concluded (toSize buf.length) readings taken (now ++ puts [ended.cmd])) now := by
  unfold receiveRound
  split
  next patient =>
    have fresh : Listening [] := ⟨rfl, by simp⟩
    have opened := round.listens patient fresh
    rw [List.append_nil] at opened
    simp only [StateT.run_bind, wp_seq, wp_putc]
    refine ⟨⟨round.underway, round.heeded⟩, opened, ?_⟩
    have read := (xmodemReadPkt_listens s.expSeqNo s.buf s.dataCnt s.bufLen pktBuf).and
      (xmodemReadPkt_spec s.expSeqNo s.buf s.dataCnt s.bufLen pktBuf False (by simp))
    refine read.frame (fun later fine => round.listens patient fine.1) ?_
    intro outcome later fine done
    obtain ⟨⟨status, after⟩, held⟩ := outcome
    obtain ⟨waiting, silent, new, read, store⟩ := done
    have always := round.listens patient waiting
    cases status with
    | soh =>
      exact (wp_pure _).mpr ⟨always, _, _, round.again patient waiting read
        (round.toAtHead.again patient silent read store (Or.inl ⟨rfl, rfl⟩))⟩
    | dup =>
      exact (wp_pure _).mpr ⟨always, _, _, round.again patient waiting read
        (round.toAtHead.again patient silent read store (Or.inr (Or.inl ⟨rfl, rfl⟩)))⟩
    | err =>
      exact (wp_pure _).mpr ⟨always, _, _, round.again patient waiting read
        (round.toAtHead.again patient silent read store (Or.inr (Or.inr ⟨rfl, rfl⟩)))⟩
    | eot => exact (wp_pure _).mpr ⟨always, _, _, round.closes patient waiting read (Or.inl rfl)⟩
    | can => exact (wp_pure _).mpr ⟨always, _, _, round.closes patient waiting read (Or.inr rfl)⟩
  next full => exact (wp_pure _).mpr ⟨⟨round.underway, round.heeded⟩, _, _, round.exhausted full⟩

end Round

theorem xmodemReceivePackage_converses (buf : List UInt8) (pktBuf : XmodemPacket) :
    wp (fun now => Underway (toSize buf.length) now ∧ Heeded now) ((xmodemReceivePackage buf).run pktBuf) (fun _ now =>
      ∃ readings taken, Concluded (toSize buf.length) readings taken now) [] := by
  simp only [xmodemReceivePackage, StateT.run_bind, wp_seq, wp_setTimeout, List.nil_append]
  refine ⟨⟨Or.inl (by simp), .nil⟩, ⟨Or.inl (by simp), .singleton _⟩, ?_⟩
  have looped : wp (fun now => Underway (toSize buf.length) now ∧ Heeded now)
      ((Static.loop receiveRound (Reception.start buf)).run pktBuf) (fun outcome now => ∃ readings taken,
        Concluded (toSize buf.length) readings taken (now ++ puts [outcome.1.cmd]))
      [⟨.setTimeout timeoutStd, ()⟩] := by
    apply wp.static_loop fun s _ now => ∃ readings taken, AtRound buf readings taken s now
    · exact ⟨[], [], .start buf _ rfl rfl, ⟨[], .nil, rfl⟩, Or.inl (by simp), .singleton _, by simp [Quiet]⟩
    · intro s held now reached
      obtain ⟨readings, taken, round⟩ := reached
      apply (receiveRound_converses round held).imp
      intro outcome now fine next
      obtain ⟨outcome, kept⟩ := outcome
      cases outcome <;> exact next
  apply looped.imp
  intro outcome now fine concluded
  obtain ⟨readings, taken, done⟩ := concluded
  simp only [wp_putc]
  exact ⟨fine, ⟨Or.inr ⟨readings, taken, [], done.conversed⟩, done.heeded⟩,
    (wp_pure _).mpr ⟨⟨Or.inr ⟨readings, taken, [], done.conversed⟩, done.heeded⟩, readings, taken, done⟩⟩

/-- The reply to a reading, by what was read and whether a block had been accepted before. -/
def Answers (before : List Reading) (reading : Reading) : Prop :=
  (reading.reply = ack ↔ reading.status = .soh ∨ reading.status = .dup ∨ reading.status = .eot) ∧
  (reading.reply = can ↔ reading.status = .can) ∧
  (reading.status = .err → reading.reply = if ∃ earlier ∈ before, earlier.status = .soh then nak else charC)

theorem Session.answers {room : Nat} {readings : List Reading} {taken : List Frame} (session : Session room readings taken)
    {before after : List Reading} {reading : Reading} (split : readings = before ++ reading :: after) :
    Answers before reading := by
  obtain ⟨accepted, new, earlier, read, reply⟩ := session.at_reading split
  obtain ⟨heard, status, said⟩ := reading
  dsimp only at read reply
  subst reply
  have began : accepted.length = 0 ↔ ¬∃ earlier ∈ before, earlier.status = .soh := by
    have same := congrArg List.length earlier.accepted
    rw [List.length_map, List.length_map] at same
    rw [← same, List.length_eq_zero_iff, List.filter_eq_nil_iff]
    simp
  cases status with
  | soh | dup | eot | can => exact ⟨by simp [replyTo, ack, can], by simp [replyTo, ack, can], by simp⟩
  | err =>
    rw [read.taken_nil (by simp), List.append_nil]
    by_cases first : accepted.length = 0
    · exact ⟨by simp [replyTo, first, ack, charC], by simp [replyTo, first, can, charC], by simp [replyTo, first, began.mp first]⟩
    · have later : ∃ earlier ∈ before, earlier.status = .soh := by
        by_contra none_
        exact first (began.mpr none_)
      exact ⟨by simp [replyTo, first, ack, nak], by simp [replyTo, first, can, nak], fun _ => by rw [if_pos later]; simp [replyTo, first]⟩

/-- The bytes that ask the peer for a frame. -/
def Request (ch : UInt8) : Prop := ch = charC ∨ ch = nak

/-- Each frame asked for is waited for. -/
def Attended (history : History Io) : Prop :=
  ∀ before ch after, history = before ++ ⟨.putc ch, ()⟩ :: after → Request ch → ∃ event ∈ after, event.op = .getc

/-- Five packet reads have gone wrong with no new block among them. -/
def GivesUp (room : Nat) (heard : List (Option UInt8)) : Prop :=
  ∃ readings taken, Session room readings taken ∧ readings.flatMap Reading.heard = heard ∧ errorRun readings = maxRxErrors

theorem Heeded.attended {front : History Io} {ch : UInt8} (heeded : Heeded (front ++ puts [ch])) :
    Attended (front ++ puts [ch]) ↔ ¬Request ch := by
  constructor
  · intro attended request
    obtain ⟨event, impossible, _⟩ := attended front ch [] rfl request
    cases impossible
  · intro final before said after split request
    cases after with
    | nil =>
      have same := List.append_inj_right' split rfl
      cases same
      exact absurd request final
    | cons event after =>
      rw [split] at heeded
      have next := (List.isChain_append.mp heeded).2.1
      exact ⟨event, List.mem_cons_self, (List.isChain_cons_cons.mp next).1 (by simp [Quiet])⟩

section Conclusion

variable {room : Nat} {readings : List Reading} {taken : List Frame} {history : History Io}

theorem Dialogue.ends {before : List Reading} {reading : Reading} (dialogue : Dialogue (before ++ [reading]) history) :
    ∃ front, history = front ++ puts [reading.reply] := by
  induction before generalizing history with
  | nil =>
    cases dialogue with
    | cons arrival silent rest =>
      cases rest
      exact ⟨_, List.append_nil _⟩
  | cons first before ih =>
    cases dialogue with
    | cons arrival silent rest =>
      obtain ⟨front, rfl⟩ := ih rest
      exact ⟨_, (List.append_assoc _ _ _).symm⟩

theorem Conversed.heard (conversed : Conversed room readings taken [] history) :
    outcomes history = readings.flatMap Reading.heard := by
  obtain ⟨dialogue, dialogues, rfl⟩ := conversed.course
  simp [dialogues.heard]

/-- The last byte of a call that returned asks for a frame exactly if the call gave up. -/
theorem Concluded.attended (concluded : Concluded room readings taken history) :
    Attended history ↔ errorRun readings ≠ maxRxErrors := by
  obtain ⟨⟨session, ⟨dialogue, dialogues, course⟩, _, _⟩, heeded, closed⟩ := concluded
  cases session with
  | opened => simp [Closed, Open, errorRun, maxRxErrors] at closed
  | @read before accepted heard status new earlier open_ patient next =>
    obtain ⟨front, rfl⟩ := dialogues.ends
    have whole : history = (⟨.setTimeout timeoutStd, ()⟩ :: (puts [charC] ++ front)) ++
        puts [replyTo (accepted ++ new).length status] := by
      rw [course]
      simp
    rw [whole] at heeded ⊢
    rw [heeded.attended, errorRun_snoc]
    have full (goes : status ≠ .eot ∧ status ≠ .can) :
        errorRun (before ++ [⟨heard, status, replyTo (accepted ++ new).length status⟩]) = maxRxErrors := by
      refine closed.resolve_left fun ended => ended fun reading member => ?_
      rcases List.mem_append.mp member with earlier | last
      · exact open_ reading earlier
      · rwa [List.mem_singleton.mp last]
    rw [errorRun_snoc] at full
    cases status with
    | soh => cases full (by simp)
    | dup => exact absurd (full (by simp)) (Nat.ne_of_lt patient)
    | eot => simp [Request, replyTo, ack, charC, nak, Nat.ne_of_lt patient]
    | can => simp [Request, replyTo, can, charC, nak, Nat.ne_of_lt patient]
    | err =>
      have asks : Request (replyTo (accepted ++ new).length .err) := by
        simp only [replyTo]
        split
        · exact Or.inl rfl
        · exact Or.inr rfl
      exact ⟨fun calm => absurd asks calm, fun less => absurd (full (by simp)) less⟩

end Conclusion

theorem xmodemReceivePackage_concludes {buf : List UInt8} {pktBuf : XmodemPacket} {history : History Io}
    {result : (Int × List UInt8) × XmodemPacket}
    (run : Runs ((xmodemReceivePackage buf).run pktBuf) history (.ret result)) :
    ∃ readings taken, Concluded (toSize buf.length) readings taken history :=
  (xmodemReceivePackage_converses buf pktBuf).returns run

/-- In every run whatever comes after a byte put out is a read, and each packet read is answered
once, as it deserves. A call that returns has waited for every frame it asked for, unless it
gave up after too many errors. -/
theorem requests_attended_iff (buf : List UInt8) (pktBuf : XmodemPacket) :
    (∀ history rest, Runs ((xmodemReceivePackage buf).run pktBuf) history rest →
      Heeded history ∧ (history <+: [⟨.setTimeout timeoutStd, ()⟩] ∨
        ∃ readings taken pending, Conversed (toSize buf.length) readings taken pending history ∧
          ∀ before reading after, readings = before ++ reading :: after → Answers before reading)) ∧
    (∀ history result, Runs ((xmodemReceivePackage buf).run pktBuf) history (.ret result) →
      (∃ readings taken, Conversed (toSize buf.length) readings taken [] history ∧
        ∀ before reading after, readings = before ++ reading :: after → Answers before reading) ∧
      (Attended history ↔ ¬GivesUp (toSize buf.length) (outcomes history))) := by
  constructor
  · intro history rest run
    obtain ⟨underway, heeded⟩ := (xmodemReceivePackage_converses buf pktBuf).safe run
    refine ⟨heeded, underway.imp id ?_⟩
    intro conversation
    obtain ⟨readings, taken, pending, conversed⟩ := conversation
    exact ⟨readings, taken, pending, conversed, fun _ _ _ split => conversed.session.answers split⟩
  · intro history result run
    obtain ⟨readings, taken, concluded⟩ := xmodemReceivePackage_concludes run
    have conversed := concluded.conversed
    have answers (before : List Reading) (reading : Reading) (after : List Reading)
        (split : readings = before ++ reading :: after) : Answers before reading := conversed.session.answers split
    refine ⟨⟨readings, taken, conversed, answers⟩, concluded.attended.trans (not_congr ⟨?_, ?_⟩)⟩
    · intro full
      exact ⟨readings, taken, conversed.session, conversed.heard.symm, full⟩
    · intro gives
      obtain ⟨others, found, session, heard, full⟩ := gives
      obtain ⟨rfl, _⟩ := session.unique conversed.session (heard.trans conversed.heard)
      exact full

theorem silence_run (buf : List UInt8) : ∃ retv dialogue kept, Dialogue (List.replicate maxRxErrors unheard) dialogue ∧
    Runs ((xmodemReceivePackage buf).run .blank) (⟨.setTimeout timeoutStd, ()⟩ :: (puts [charC] ++ dialogue))
      (.ret ((retv, contents buf []), kept)) := by
  obtain ⟨session, _, errors⟩ := unheard_session (toSize buf.length) maxRxErrors (Nat.le_refl _)
  exact session.call_returns (Or.inr errors) (by simp) .blank

/-- Met with nothing but timeouts, the call asks six times and reads five times. -/
theorem last_request_unattended : ∃ history result,
    Runs ((xmodemReceivePackage (List.replicate 128 0)).run .blank) history (.ret result) ∧
    outcomes history = List.replicate 5 none ∧ emitted history = List.replicate 6 charC ∧ ¬Attended history := by
  obtain ⟨retv, dialogue, kept, dialogues, run⟩ := silence_run (List.replicate 128 0)
  refine ⟨_, _, run, ?_, ?_, ?_⟩
  · rw [outcomes_timeout, outcomes_append, outcomes_puts, dialogues.heard]
    rfl
  · rw [emitted_timeout, emitted_append, emitted_puts, dialogues.said]
    rfl
  · obtain ⟨readings, taken, concluded⟩ := xmodemReceivePackage_concludes run
    obtain ⟨session, _, errors⟩ := unheard_session (toSize (List.replicate 128 (0 : UInt8)).length) maxRxErrors (Nat.le_refl _)
    have same : (List.replicate maxRxErrors unheard).flatMap Reading.heard = readings.flatMap Reading.heard := by
      rw [← concluded.conversed.heard, ← dialogues.heard]
      simp
    obtain ⟨rfl, _⟩ := session.unique concluded.conversed.session same
    rw [concluded.attended, errors]
    exact fun different => different rfl

/-- A call that takes a block and hears an EOT has heard all that it asked for; one that hears nothing has not. -/
theorem block_attended_silence_unattended :
    (∃ history result, Runs ((xmodemReceivePackage (List.replicate 128 0)).run .blank) history (.ret result) ∧ result.1.1 = 128 ∧
      Attended history) ∧
    ∃ history result, Runs ((xmodemReceivePackage (List.replicate 128 0)).run .blank) history (.ret result) ∧ ¬Attended history := by
  have room : toSize (List.replicate 128 (0 : UInt8)).length = 128 := by
    rw [List.length_replicate]
    exact toSize_nat (by decide)
  have fits : packetPayloadSize * 1 ≤ toSize (List.replicate 128 (0 : UInt8)).length := by
    rw [room]
    decide
  constructor
  · obtain ⟨readings, session, open_, calm⟩ := numbered_session 1 _ fits
    obtain ⟨dialogue, kept, dialogues, run⟩ :=
      session.call_occurs open_ (by rw [numberedBlocks_length]; decide) (by rw [calm]; decide) .blank
    refine ⟨_, _, run, by rw [numberedBlocks_length]; rfl, (((requests_attended_iff _ _).2 _ _ run).2).mpr ?_⟩
    intro gives
    obtain ⟨others, found, other, heard, full⟩ := gives
    have ended := Session.read session open_ (by rw [calm]; decide) .eot
    obtain ⟨rfl, _⟩ := other.unique ended (by
      rw [heard, outcomes_timeout, outcomes_append, outcomes_puts, dialogues.heard]
      rfl)
    rw [errorRun_snoc, calm] at full
    cases full
  · obtain ⟨retv, dialogue, kept, dialogues, run⟩ := silence_run (List.replicate 128 0)
    obtain ⟨session, _, errors⟩ := unheard_session (toSize (List.replicate 128 (0 : UInt8)).length) maxRxErrors (Nat.le_refl _)
    refine ⟨_, _, run, fun attended => (((requests_attended_iff _ _).2 _ _ run).2).mp attended ⟨_, _, session, ?_, errors⟩⟩
    rw [outcomes_timeout, outcomes_append, outcomes_puts, dialogues.heard]
    rfl

end DfuUtilQda.Xmodem

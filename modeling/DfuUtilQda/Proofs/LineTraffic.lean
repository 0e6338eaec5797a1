import DfuUtilQda.Proofs.LineEnds
import DfuUtilQda.Proofs.ReceptionSafety
import DfuUtilQda.Proofs.StatusLoop
import DfuUtilQda.Proofs.WireRequests

/-! What is on the serial line while the program runs. Line by line it is the
traffic of the calls that `main` makes, so nothing is ever said on the line that
is not part of a command, or of the acceptance of a response. -/

namespace DfuUtilQda.Host
open Interaction Machine Qda Xmodem Dfu

/-- The calls that do not go over the line. -/
def besideLine (high : History Calls) : History Calls :=
  high.filter fun
    | ⟨.send _, _⟩ => false
    | ⟨.receive _, _⟩ => false
    | _ => true

/-- The traffic on the line that carries these calls: for each message sent a disciplined call of the
transmitter, and for each one received a concluded call of the receiver, whose blocks are then in the buffer. -/
inductive Traffic : History Calls → History Io → Prop where
  | silent : Traffic [] []
  | beside {high : History Calls} {line : History Io} {event : Event Calls} (before : Traffic high line)
      (aside : Aside event.op) : Traffic (high ++ [event]) line
  | sent {high : History Calls} {line : History Io} {request : List UInt8} {rc : Int} {starts ends : List (Option UInt8)}
      {sendings : List Sending} (before : Traffic high line) (disciplined : Disciplined request starts sendings ends rc) :
      Traffic (high ++ [⟨.send request, rc⟩]) (line ++ callHistory starts sendings ends)
  | received {high : History Calls} {line part : History Io} {asked after : QdaBuf} {count : Nat} {readings : List Reading}
      {taken : List Frame} (before : Traffic high line) (concluded : Concluded qdaBufSize readings taken part)
      (stored : after.bytes = contents asked.bytes taken)
      (counted : EndsOnEot readings ∧ count = packetPayloadSize * taken.length ∨ ¬EndsOnEot readings ∧ count = 0) :
      Traffic (high ++ [⟨.receive asked, (count, after)⟩]) (line ++ part)

section Calls

variable {high : History Calls} {line part : History Io} {low : History Port} {pktBuf held kept : XmodemPacket}

theorem buffer_size (qdaBuf : QdaBuf) : toSize qdaBuf.bytes.length = qdaBufSize := by
  rw [qdaBuf.size]
  exact toSize_nat (by decide)

theorem Traffic.sends {request : List UInt8} {rc : Int} (before : Traffic high line)
    (run : Runs ((dfuUtilQdaSend request).run held) part (.ret (rc, kept))) :
    Traffic (high ++ [⟨.send request, rc⟩]) (line ++ part) := by
  have transmits := (runs_transmitPackage _ _ _ _ _).mp run
  obtain ⟨starts, sendings, ends, rfl, disciplined⟩ := transmits.disciplined
  exact before.sent disciplined

theorem receive_returns {asked : QdaBuf} {answer : Nat × QdaBuf}
    (run : Runs ((dfuUtilQdaReceive asked).run held) part (.ret (answer, kept))) : ∃ retv data,
      Runs ((xmodemReceivePackage asked.bytes).run held) part (.ret ((retv, data), kept)) ∧
        answer = (receivedBytes retv, asked.store 0 data) := by
  obtain ⟨⟨retv, data⟩, middle, early, late, received, done, rfl⟩ := (runs_seq _ _ _ _ _).mp run
  obtain ⟨rfl, same⟩ := (runs_pure _ _).mp done
  cases same
  exact ⟨retv, data, by simpa using received, rfl⟩

theorem Traffic.receives {asked : QdaBuf} {answer : Nat × QdaBuf} (before : Traffic high line)
    (run : Runs ((dfuUtilQdaReceive asked).run held) part (.ret (answer, kept))) :
    Traffic (high ++ [⟨.receive asked, answer⟩]) (line ++ part) := by
  obtain ⟨retv, data, received, rfl⟩ := receive_returns run
  have short : asked.bytes.length < 2 ^ 31 := by
    rw [asked.size]
    decide
  obtain ⟨readings, taken, concluded⟩ := xmodemReceivePackage_concludes received
  obtain ⟨others, found, session, heard, rfl, result⟩ := reception_returns short received
  rw [buffer_size] at concluded
  rw [asked.size] at session
  have same : readings.flatMap Reading.heard = others.flatMap Reading.heard := by
    rw [← heard, concluded.conversed.heard]
  obtain ⟨rfl, rfl⟩ := concluded.conversed.session.unique session same
  have fits := session.fits
  have size : qdaBufSize = 8192 := rfl
  have whole : (contents asked.bytes taken).length = qdaBufSize := by
    rw [contents, List.length_append, List.length_drop, payloads_length, asked.size]
    omega
  apply before.received concluded
  · rw [QdaBuf.store_eq _ _ (by rw [whole]), whole, ← asked.size, List.drop_length, List.append_nil]
  · obtain ⟨success, rfl⟩ | ⟨failure, rfl⟩ := result
    · refine .inl ⟨success, ?_⟩
      have small : packetPayloadSize * taken.length < 2 ^ 64 := by omega
      have natural : ((packetPayloadSize : Int) * taken.length) = ((packetPayloadSize * taken.length : Nat) : Int) := by simp
      rw [receivedBytes, natural, if_neg (by omega), toSize_nat small]
    · exact .inr ⟨failure, rfl⟩

theorem besideLine_snoc (event : Event Calls) (aside : Aside event.op) : besideLine (high ++ [event]) = besideLine high ++ [event] := by
  obtain ⟨op, answer⟩ := event
  cases op with
  | send data => exact absurd rfl (aside.1 data)
  | receive qdaBuf => exact absurd rfl (aside.2 qdaBuf)
  | _ => simp [besideLine]

theorem besideLine_talks (event : Event Calls) (talks : ¬Aside event.op) : besideLine (high ++ [event]) = besideLine high := by
  obtain ⟨op, answer⟩ := event
  cases op with
  | send | receive => simp [besideLine]
  | _ => exact absurd ⟨by simp, by simp⟩ talks

theorem transport_aside {op : Op} (aside : Aside op) : transport op = Static.perform (S := Port) (.inr op) := by
  cases op with
  | send data => exact absurd rfl (aside.1 data)
  | receive qdaBuf => exact absurd rfl (aside.2 qdaBuf)
  | _ => rfl

/-- What has been carried out for the calls is their traffic on the line and the calls beside it. -/
theorem carried_traffic (carried : Carried transport pktBuf high low held) :
    Traffic high (History.lefts low) ∧ History.rights low = besideLine high := by
  induction carried with
  | nil => exact ⟨.silent, rfl⟩
  | @snoc held kept high low part op answer _ run ih =>
    obtain ⟨before, beside⟩ := ih
    by_cases aside : Aside op
    · rw [transport_aside aside] at run
      obtain ⟨rfl, _⟩ := (runs_perform (S := Port) (.inr op) _ _ _).mp run
      rw [besideLine_snoc _ aside, History.lefts_append, History.rights_append, beside]
      refine ⟨?_, rfl⟩
      change Traffic _ (_ ++ [])
      rw [List.append_nil]
      exact before.beside aside
    · rw [besideLine_talks _ aside, History.lefts_append, History.rights_append, beside]
      cases op with
      | send data =>
        obtain ⟨part, ran, rfl⟩ := left_returns run
        rw [History.lefts_left, History.rights_left, List.append_nil]
        exact ⟨before.sends ran, rfl⟩
      | receive qdaBuf =>
        obtain ⟨part, ran, rfl⟩ := left_returns run
        rw [History.lefts_left, History.rights_left, List.append_nil]
        exact ⟨before.receives ran, rfl⟩
      | _ => exact absurd ⟨by simp, by simp⟩ aside

theorem send_extends {request : List UInt8} {inner : Program Io (Int × XmodemPacket)}
    (run : Runs ((dfuUtilQdaSend request).run held) part inner) :
    ∃ whole rc kept, Runs ((dfuUtilQdaSend request).run held) whole (.ret (rc, kept)) ∧ part <+: whole := by
  have all : Supplied (List.drop 0 (outcomes part)) (outcomes part) := ⟨0, by simp⟩
  obtain ⟨whole, rc, kept, transmits, arrive⟩ := call_along (silentAfter (outcomes part)) request held
  have ran := (runs_transmitPackage _ _ _ _ _).mpr transmits
  obtain ⟨more, rest, joined⟩ := arrive.comparable all.arrive
  exact ⟨whole, rc, kept, ran, covers_history ran (ended_stays (.inl ⟨_, rfl⟩)) run joined⟩

theorem receive_extends {asked : QdaBuf} {inner : Program Io ((Nat × QdaBuf) × XmodemPacket)}
    (run : Runs ((dfuUtilQdaReceive asked).run held) part inner) :
    ∃ whole answer kept, Runs ((dfuUtilQdaReceive asked).run held) whole (.ret (answer, kept)) ∧ part <+: whole := by
  have all : Supplied (outcomes part) (outcomes part) := ⟨0, by simp⟩
  obtain ⟨whole, final, ran, supplied, ended⟩ := xmodemReceivePackage_ends asked.bytes held (outcomes part)
  obtain ⟨⟨⟨retv, data⟩, kept⟩, rfl⟩ | ⟨_, large⟩ := ended
  · have received : Runs ((dfuUtilQdaReceive asked).run held) whole (.ret ((receivedBytes retv, asked.store 0 data), kept)) := by
      rw [dfuUtilQdaReceive, ← List.append_nil whole]
      exact ran.andThen (.here _)
    obtain ⟨more, rest, joined⟩ := supplied.agree all
    exact ⟨whole, _, kept, received, covers_history received (ended_stays (.inl ⟨_, rfl⟩)) run joined⟩
  · have size := asked.size
    have small : qdaBufSize = 8192 := rfl
    omega

end Calls

/-- The traffic of the calls that a program has made, and the beginning of that of the one that is under way. -/
def Talking {α : Type} (program : Program Calls α) (high : History Calls) (line : History Io) : Prop :=
  ∃ done part, Traffic high done ∧ line = done ++ part ∧ (part = [] ∨ ∃ event whole later,
    Runs program (high ++ [event]) later ∧ Traffic (high ++ [event]) (done ++ whole) ∧ part <+: whole)

section Program

variable {pktBuf held : XmodemPacket} {high : History Calls} {done low : History Port} {α : Type} {program : Program Calls α}

theorem midway_talks {op : Op} {next : Answer op → Program Calls α} {part : History Port}
    {inner : Program Port (Answer op × XmodemPacket)} (run : Runs program high (.call op next))
    (carried : Carried transport pktBuf high done held) (under : Runs ((transport op).run held) part inner) :
    ∃ calls middle, Runs program calls middle ∧ Talking program calls (History.lefts (done ++ part)) ∧
      History.rights (done ++ part) = besideLine calls := by
  obtain ⟨traffic, beside⟩ := carried_traffic carried
  by_cases aside : Aside op
  · rw [transport_aside aside] at under
    cases under with
    | here => exact ⟨high, _, run, ⟨_, [], traffic, by simp, .inl rfl⟩, by simpa using beside⟩
    | @call _ _ answer _ _ later =>
      cases later with
      | here =>
        refine ⟨high ++ [⟨op, answer⟩], next answer, run.trans (.call (.here _)), ⟨History.lefts done, [], ?_, ?_, .inl rfl⟩, ?_⟩
        · exact traffic.beside aside
        · rw [History.lefts_append, List.append_nil]
          exact List.append_nil _
        · rw [besideLine_snoc _ aside, ← beside, History.rights_append]
          rfl
  · refine ⟨high, _, run, ?_, ?_⟩
    · cases op with
      | send data =>
        obtain ⟨part, middle, ran, rfl, _⟩ := under.of_left
        obtain ⟨whole, rc, kept, complete, front⟩ := send_extends ran
        rw [History.lefts_append, History.lefts_left]
        exact ⟨_, part, traffic, rfl, .inr ⟨_, whole, _, run.trans (.call (.here _)), traffic.sends complete, front⟩⟩
      | receive qdaBuf =>
        obtain ⟨part, middle, ran, rfl, _⟩ := under.of_left
        obtain ⟨whole, answer, kept, complete, front⟩ := receive_extends ran
        rw [History.lefts_append, History.lefts_left]
        exact ⟨_, part, traffic, rfl, .inr ⟨_, whole, _, run.trans (.call (.here _)), traffic.receives complete, front⟩⟩
      | _ => exact absurd ⟨by simp, by simp⟩ aside
    · rw [History.rights_append, beside]
      cases op with
      | send data =>
        obtain ⟨part, middle, _, rfl, _⟩ := under.of_left
        rw [History.rights_left, List.append_nil]
      | receive qdaBuf =>
        obtain ⟨part, middle, _, rfl, _⟩ := under.of_left
        rw [History.rights_left, List.append_nil]
      | _ => exact absurd ⟨by simp, by simp⟩ aside

/-- Over the line a program makes the calls of one of its executions over calls that may have any result. -/
theorem transported (pktBuf : XmodemPacket) (program : Program Calls α) :
    wp (fun low => ∃ high middle, Runs program high middle ∧ Talking program high (History.lefts low) ∧
        History.rights low = besideLine high)
      ((program.handle transport).run pktBuf)
      (fun result low => ∃ high, Runs program high (.ret result.1) ∧ Traffic high (History.lefts low) ∧
        History.rights low = besideLine high) [] := by
  apply (handled_reaches transport pktBuf program).mono
  · intro low midway
    obtain ⟨middle, done, held, ⟨high, ran, carried⟩, complete | under⟩ := midway
    · subst complete
      obtain ⟨traffic, beside⟩ := carried_traffic carried
      exact ⟨high, middle, ran, ⟨_, [], traffic, by simp, .inl rfl⟩, beside⟩
    · obtain ⟨op, next, part, inner, rfl, rfl, running⟩ := under
      exact midway_talks ran carried running
  · intro result low _ reached
    obtain ⟨high, ran, carried⟩ := reached
    exact ⟨high, ran, carried_traffic carried⟩

/-- Over the serial line `main` does what it does over calls. What is on the line is the traffic of
its calls, each message sent and received as XMODEM demands, and on return nothing is left over. -/
theorem line_carries_calls (pageSize : Option Int) (root : QdaIf) (argv : List Opt) (qdaBuf : QdaBuf) (pktBuf : XmodemPacket) :
    wp (fun low => ∃ high middle, Runs ((main pageSize root argv).run qdaBuf) high middle ∧
        Talking ((main pageSize root argv).run qdaBuf) high (History.lefts low) ∧ History.rights low = besideLine high)
      ((mainOnLine pageSize root argv qdaBuf).run pktBuf)
      (fun result low => ∃ high, Runs ((main pageSize root argv).run qdaBuf) high (.ret result.1) ∧
        Traffic high (History.lefts low) ∧ History.rights low = besideLine high) [] :=
  transported pktBuf _

end Program

section Utterances

/-- What may be said on the line: a whole frame with a block of a command, or a control byte. -/
def Utterance (unit : List UInt8) : Prop :=
  (∃ request index, ∃ frame : Frame, Command request ∧ IsBlock request index frame ∧ frame.intact = true ∧ unit = frame.bytes) ∨
    ∃ ch, unit = [ch] ∧ (ch = eot ∨ ch = charC ∨ ch = Xmodem.ack ∨ ch = nak ∨ ch = can)

/-- The bytes are utterances one after the other. -/
def Uttered (bytes : List UInt8) : Prop := ∃ units, bytes = List.flatten units ∧ ∀ unit ∈ units, Utterance unit

theorem Uttered.append {early late : List UInt8} (first : Uttered early) (second : Uttered late) : Uttered (early ++ late) := by
  obtain ⟨units, rfl, fine⟩ := first
  obtain ⟨others, rfl, good⟩ := second
  refine ⟨units ++ others, List.flatten_append.symm, ?_⟩
  intro unit member
  obtain here | there := List.mem_append.mp member
  · exact fine unit here
  · exact good unit there

theorem uttered_copies {unit : List UInt8} (answers : List (Option UInt8)) (utterance : Utterance unit) :
    Uttered (emitted (copies unit answers)) := by
  induction answers with
  | nil => exact ⟨[], rfl, by simp⟩
  | cons answer answers ih =>
    have first : emitted (copies unit (answer :: answers)) = unit ++ emitted (copies unit answers) := by
      rw [copies, List.flatMap_cons, ← copies]
      simp
    rw [first]
    exact Uttered.append ⟨[unit], by simp, by simpa using utterance⟩ ih

theorem disciplined_uttered {request : List UInt8} {starts ends : List (Option UInt8)} {sendings : List Sending} {rc : Int}
    (disciplined : Disciplined request starts sendings ends rc) (command : Command request) :
    Uttered (emitted (callHistory starts sendings ends)) := by
  have nothing : emitted (starts.map hears) = [] := by
    induction starts with
    | nil => rfl
    | cons answer starts ih => simp [hears, emitted]
  have frames : ∀ sent : List Sending, (∀ sending ∈ sent, sending ∈ sendings) → Uttered (emitted (sent.flatMap Sending.history)) := by
    intro sent inside
    induction sent with
    | nil => exact ⟨[], rfl, by simp⟩
    | cons sending sent ih =>
      obtain ⟨here, there⟩ := List.forall_mem_cons.mp inside
      obtain ⟨index, place⟩ := List.mem_iff_getElem?.mp here
      obtain ⟨block, intact, _⟩ := disciplined.frames index sending place
      rw [List.flatMap_cons, emitted_append]
      exact (uttered_copies sending.answers (.inl ⟨request, index, _, command, block, intact, rfl⟩)).append (ih there)
  rw [callHistory, emitted_append, List.cons_append, emitted_timeout, emitted_append, nothing, List.nil_append]
  exact (frames sendings fun _ member => member).append (uttered_copies ends (.inr ⟨eot, rfl, .inl rfl⟩))

theorem concluded_uttered {room : Nat} {readings : List Reading} {taken : List Frame} {part : History Io}
    (concluded : Concluded room readings taken part) : Uttered (emitted part) := by
  obtain ⟨dialogue, dialogues, rfl⟩ := concluded.conversed.course
  refine ⟨(charC :: readings.map Reading.reply).map fun ch => [ch], ?_, ?_⟩
  · rw [emitted_timeout, emitted_append, emitted_append, emitted_puts, dialogues.said]
    rw [← List.flatMap_def, List.flatMap_singleton', emitted_nil, List.append_nil]
    rfl
  · intro unit member
    obtain ⟨ch, said, rfl⟩ := List.mem_map.mp member
    refine .inr ⟨ch, rfl, ?_⟩
    obtain rfl | reply := List.mem_cons.mp said
    · exact .inr (.inl rfl)
    · obtain ⟨reading, inside, rfl⟩ := List.mem_map.mp reply
      obtain ⟨before, after, split⟩ := List.append_of_mem inside
      obtain ⟨_, _, _, _, same⟩ := concluded.conversed.session.at_reading split
      rw [same]
      cases reading.status with
      | soh | dup | eot => exact .inr (.inr (.inl rfl))
      | can => exact .inr (.inr (.inr (.inr rfl)))
      | err =>
        simp only [replyTo]
        split
        · exact .inr (.inl rfl)
        · exact .inr (.inr (.inr (.inl rfl)))

theorem Traffic.uttered {high : History Calls} {line : History Io} (traffic : Traffic high line)
    (commands : ∀ request rc, (⟨.send request, rc⟩ : Event Calls) ∈ high → Command request) : Uttered (emitted line) := by
  induction traffic with
  | silent => exact ⟨[], rfl, by simp⟩
  | beside _ _ ih => exact ih fun request rc member => commands request rc (List.mem_append_left _ member)
  | sent _ disciplined ih =>
    rw [emitted_append]
    apply (ih fun request rc member => commands request rc (List.mem_append_left _ member)).append
    exact disciplined_uttered disciplined (commands _ _ (List.mem_append_right _ (List.mem_singleton.mpr rfl)))
  | received _ concluded _ _ ih =>
    rw [emitted_append]
    exact (ih fun request rc member => commands request rc (List.mem_append_left _ member)).append (concluded_uttered concluded)

theorem main_commands {pageSize : Option Int} {root : QdaIf} {argv : List Opt} {qdaBuf : QdaBuf} {calls : History Calls}
    {later : Program Calls (Int × QdaBuf)} (goes : Runs ((main pageSize root argv).run qdaBuf) calls later)
    (request : List UInt8) (rc : Int) (member : (⟨.send request, rc⟩ : Event Calls) ∈ calls) : Command request := by
  have performs : Static.Performs (Within (fun _ => True) Command) (main pageSize root argv) :=
    main_within (fun _ _ => trivial) fun _ _ _ => trivial
  exact (goes.performs (performs qdaBuf)).2 _ member

/-- Whatever the other end does, all that the program puts on the line is frames of its commands
and control bytes, one utterance after the other, and it leaves none unfinished when it returns. -/
theorem line_bytes_uttered (pageSize : Option Int) (root : QdaIf) (argv : List Opt) (qdaBuf : QdaBuf) (pktBuf : XmodemPacket) :
    wp (fun low => ∃ bytes, emitted (History.lefts low) <+: bytes ∧ Uttered bytes)
      ((mainOnLine pageSize root argv qdaBuf).run pktBuf) (fun _ low => Uttered (emitted (History.lefts low))) [] := by
  apply (transported pktBuf _).mono
  · intro low talks
    obtain ⟨high, middle, ran, ⟨done, part, traffic, same, under⟩, _⟩ := talks
    rw [same]
    obtain rfl | ⟨event, whole, later, goes, complete, front⟩ := under
    · exact ⟨emitted done, by simp, traffic.uttered (main_commands ran)⟩
    · obtain ⟨more, rfl⟩ := front
      refine ⟨_, ?_, complete.uttered (main_commands goes)⟩
      rw [← List.append_assoc, emitted_append (done ++ part)]
      exact List.prefix_append _ _
  · intro result low _ returned
    obtain ⟨high, ran, traffic, _⟩ := returned
    exact traffic.uttered (main_commands ran)

end Utterances

end DfuUtilQda.Host

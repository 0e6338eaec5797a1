import DfuUtilQda.Proofs.ReplyDiscipline

/-! A receiver whose peer falls silent comes to an end. No counter of the loop alone sees to
that: a block sets the error count back and a duplicate leaves it, but both use up input. -/

namespace DfuUtilQda.Xmodem
open Interaction Machine

/-- `heard` is the beginning of `answers` and of the silence after them. -/
def Supplied (answers heard : List (Option UInt8)) : Prop :=
  ∃ silence, heard <+: answers ++ List.replicate silence none

/-- The bytes in an input. -/
def arrivals (answers : List (Option UInt8)) : Nat := answers.countP Option.isSome

/-- What is left of an input after `heard`, which may have waited for one answer more. -/
def Leaves (answers heard rest : List (Option UInt8)) : Prop :=
  heard ++ rest = answers ∨ rest = [] ∧ heard = answers ++ [none]

theorem Leaves.arrivals {answers heard rest : List (Option UInt8)} (leaves : Leaves answers heard rest) :
    arrivals heard + arrivals rest = arrivals answers := by
  rcases leaves with rfl | ⟨rfl, rfl⟩ <;> simp [Xmodem.arrivals]

theorem Leaves.supplied {answers heard rest later : List (Option UInt8)} (leaves : Leaves answers heard rest)
    (supplied : Supplied rest later) : Supplied answers (heard ++ later) := by
  obtain ⟨silence, front⟩ := supplied
  rcases leaves with rfl | ⟨rfl, rfl⟩
  · refine ⟨silence, ?_⟩
    rw [List.append_assoc]
    exact (List.prefix_append_right_inj heard).mpr front
  · refine ⟨silence + 1, ?_⟩
    have later_ : answers ++ List.replicate (silence + 1) none = answers ++ [none] ++ List.replicate silence none := by
      simp [List.replicate_succ]
    rw [later_]
    exact (List.prefix_append_right_inj _).mpr front

theorem bytes_until (answers : List (Option UInt8)) :
    ∃ bytes : List UInt8, answers = bytes.map some ∨ ∃ rest, answers = bytes.map some ++ none :: rest := by
  induction answers with
  | nil => exact ⟨[], Or.inl rfl⟩
  | cons answer answers ih =>
    cases answer with
    | none => exact ⟨[], Or.inr ⟨answers, rfl⟩⟩
    | some ch =>
      obtain ⟨bytes, rfl | ⟨rest, rfl⟩⟩ := ih
      · exact ⟨ch :: bytes, Or.inl rfl⟩
      · exact ⟨ch :: bytes, Or.inr ⟨rest, rfl⟩⟩

theorem leaves_burst (ch : UInt8) (answers : List (Option UInt8)) :
    ∃ (bytes : List UInt8) (rest : List (Option UInt8)), Leaves (some ch :: answers) (some ch :: bytes.map some ++ [none]) rest ∧
      bytes.map some <+: answers := by
  obtain ⟨bytes, rfl | ⟨rest, rfl⟩⟩ := bytes_until answers
  · exact ⟨bytes, [], Or.inr ⟨rfl, rfl⟩, List.prefix_refl _⟩
  · exact ⟨bytes, rest, Or.inl (by simp), List.prefix_append _ _⟩

theorem reading_exists (expSeqNo : UInt8) (len : Nat) (answers : List (Option UInt8)) :
    ∃ heard status new rest, ReadsPkt expSeqNo len heard status new ∧ Leaves answers heard rest := by
  cases answers with
  | nil => exact ⟨_, _, _, [], .timeout, Or.inr ⟨rfl, rfl⟩⟩
  | cons answer answers =>
    cases answer with
    | none => exact ⟨_, _, _, answers, .timeout, Or.inl rfl⟩
    | some ch =>
      obtain ⟨bytes, rest, leaves, front⟩ := leaves_burst ch answers
      by_cases running : ch = eot
      · exact ⟨_, _, _, answers, .eot, Or.inl (by rw [running]; rfl)⟩
      by_cases marked : ch = soh
      · subst marked
        by_cases cut : bytes.length < 132
        · exact ⟨_, _, _, rest, .short bytes cut, leaves⟩
        · let frame : Frame := ⟨⟨soh :: bytes.take 132, by simp; omega⟩, rfl⟩
          have whole : frame.bytes.map some <+: some soh :: answers := by
            apply (List.prefix_cons_inj _).mpr
            exact ((List.take_prefix 132 bytes).map some).trans front
          obtain ⟨after, same⟩ := whole
          by_cases verdict : frame.verdict expSeqNo len = .soh
          · exact ⟨_, _, _, after, .taken frame verdict, Or.inl same⟩
          · exact ⟨_, _, _, after, .refused frame verdict, Or.inl same⟩
      · exact ⟨_, _, _, rest, .noise ch bytes marked running, leaves⟩

section Counting

variable {room : Nat} {readings : List Reading} {taken : List Frame}

/-- A block that is taken, or recognised as the one before, used up a whole frame. -/
theorem ReadsPkt.consumes {expSeqNo : UInt8} {len : Nat} {heard : List (Option UInt8)} {status : Status} {new : List Frame}
    (read : ReadsPkt expSeqNo len heard status new) (whole : status = .soh ∨ status = .dup) : arrivals heard = 133 := by
  have frames (frame : Frame) : arrivals (frame.bytes.map some) = 133 := by
    rw [arrivals, List.countP_map, ← frame.size]
    exact List.countP_eq_length.mpr (by simp)
  cases read with
  | refused frame => exact frames frame
  | taken frame => exact frames frame
  | timeout | eot | noise | short => simp at whole

def duplicates (readings : List Reading) : Nat := readings.countP fun reading => reading.status = .dup

theorem duplicates_snoc (readings : List Reading) (reading : Reading) :
    duplicates (readings ++ [reading]) = duplicates readings + if reading.status = .dup then 1 else 0 := by
  simp [duplicates, List.countP_append, List.countP_singleton]

/-- While a session goes on, each reading is a block, a duplicate or an error, and the errors
between two blocks are fewer than five. -/
theorem Session.readings_le (session : Session room readings taken) (open_ : Open readings) :
    readings.length ≤ 5 * taken.length + duplicates readings + errorRun readings := by
  induction session with
  | opened => simp
  | @read readings taken heard status new earlier going patient next ih =>
    have before := ih going
    have goes := open_ _ (List.mem_append_right _ (List.mem_singleton.mpr rfl))
    simp only [maxRxErrors] at patient
    rw [errorRun_snoc, duplicates_snoc, List.length_append, List.length_append, List.length_singleton]
    cases status with
    | soh =>
      obtain ⟨frame, rfl, _⟩ := next.taken_one
      rw [List.length_singleton]
      omega
    | dup =>
      rw [if_pos rfl]
      dsimp only
      omega
    | err =>
      dsimp only
      omega
    | eot | can => simp at goes

theorem Session.attempts_le (session : Session room readings taken) :
    readings.length ≤ 5 * taken.length + duplicates readings + 5 := by
  by_cases open_ : Open readings
  · have counted := session.readings_le open_
    have most := session.errorRun_le
    simp only [maxRxErrors] at most
    omega
  · cases session with
    | opened => simp
    | @read before accepted heard status new earlier going patient next =>
      have counted := earlier.readings_le going
      simp only [maxRxErrors] at patient
      rw [duplicates_snoc, List.length_append, List.length_append, List.length_singleton]
      omega

end Counting

/-- From wherever an open session stands, what comes in brings it to its end. Bytes that come
in count six times: a block sets back the five errors there may be. -/
theorem Session.stops {room : Nat} {readings : List Reading} {taken : List Frame} (answers : List (Option UInt8))
    (session : Session room readings taken) (open_ : Open readings) :
    ∃ more new, Session room (readings ++ more) (taken ++ new) ∧ Closed (readings ++ more) ∧
      Supplied answers (more.flatMap Reading.heard) := by
  generalize budget : 6 * arrivals answers + (maxRxErrors - errorRun readings) = left
  induction left using Nat.strongRecOn generalizing answers readings taken with
  | ind left ih =>
    by_cases full : errorRun readings = maxRxErrors
    · exact ⟨[], [], by simpa using session, Or.inr (by simpa using full), 0, by simp⟩
    have patient : errorRun readings < maxRxErrors := Nat.lt_of_le_of_ne session.errorRun_le full
    obtain ⟨heard, status, new, rest, read, leaves⟩ :=
      reading_exists (UInt8.ofNat (taken.length + 1)) (room - packetPayloadSize * taken.length) answers
    have used := leaves.arrivals
    by_cases goes : status ≠ .eot ∧ status ≠ .can
    · obtain ⟨further, opened⟩ := session.extends open_ patient read goes
      have less : 6 * arrivals rest + (maxRxErrors - errorRun
          (readings ++ [⟨heard, status, replyTo (taken ++ new).length status⟩])) < left := by
        rw [errorRun_snoc]
        cases status with
        | soh =>
          have whole := read.consumes (Or.inl rfl)
          simp only [maxRxErrors] at patient budget ⊢
          omega
        | dup =>
          have whole := read.consumes (Or.inr rfl)
          simp only
          omega
        | err =>
          simp only
          omega
        | eot | can => simp at goes
      obtain ⟨more, found, ended, closed, supplied⟩ := ih _ less rest further opened rfl
      refine ⟨⟨heard, status, replyTo (taken ++ new).length status⟩ :: more, new ++ found, ?_, ?_, ?_⟩
      · simpa using ended
      · simpa using closed
      · exact leaves.supplied supplied
    · refine ⟨[⟨heard, status, replyTo (taken ++ new).length status⟩], new, .read session open_ patient read, ?_, ?_⟩
      · apply Or.inl
        intro opened
        exact goes (opened _ (List.mem_append_right _ (List.mem_singleton.mpr rfl)))
      · have here : Supplied rest [] := ⟨0, List.nil_prefix⟩
        exact leaves.supplied here

section Overrun

theorem Session.passes {room bound : Nat} {readings : List Reading} {taken : List Frame} (session : Session room readings taken)
    (beyond : bound < taken.length) :
    ∃ before accepted heard frame more, Session room before accepted ∧ Open before ∧ errorRun before < maxRxErrors ∧
      accepted.length = bound ∧ readings.flatMap Reading.heard = before.flatMap Reading.heard ++ heard ++ more ∧
      ReadsPkt (UInt8.ofNat (accepted.length + 1)) (room - packetPayloadSize * accepted.length) heard .soh [frame] := by
  induction session with
  | opened => simp at beyond
  | @read readings taken heard status new earlier going patient next ih =>
    by_cases sooner : bound < taken.length
    · obtain ⟨before, accepted, caught, frame, more, parts, opened, calm, count, same, read⟩ := ih sooner
      exact ⟨before, accepted, caught, frame, more ++ heard, parts, opened, calm, count, by simp [same], read⟩
    · have accepted : status = .soh := by
        by_contra other
        rw [next.taken_nil other, List.append_nil] at beyond
        exact sooner beyond
      subst accepted
      obtain ⟨frame, rfl, _⟩ := next.taken_one
      rw [List.length_append, List.length_singleton] at beyond
      exact ⟨readings, taken, heard, frame, [], earlier, going, patient, by omega, by simp, next⟩

/-- The block behind the first 2^31 bytes is stored outside the buffer, for want of a count. -/
theorem Session.call_faults {buf : List UInt8} {readings : List Reading} {taken : List Frame} {heard : List (Option UInt8)}
    {frame : Frame} (session : Session (toSize buf.length) readings taken) (open_ : Open readings)
    (patient : errorRun readings < maxRxErrors) (full : taken.length = 2 ^ 24)
    (read : ReadsPkt (UInt8.ofNat (taken.length + 1)) (toSize buf.length - packetPayloadSize * taken.length) heard .soh [frame])
    (pktBuf : XmodemPacket) :
    ∃ history, Runs ((xmodemReceivePackage buf).run pktBuf) history .halt ∧
      outcomes history = readings.flatMap Reading.heard ++ heard := by
  obtain ⟨s, held, history, dialogue, reached, head, dialogues, same⟩ :=
    session.head_occurs open_ (by simp [full, packetPayloadSize]) pktBuf
  obtain ⟨_, one, rfl, verdict⟩ := read.taken_one
  cases one
  obtain ⟨packet, payload, decided, checks⟩ := hears_frame s.expSeqNo s.buf s.dataCnt s.bufLen frame held
  rw [← head.number, head.left] at verdict
  have negative : s.dataCnt < 0 := by
    rw [head.count, full]
    simp only [packetPayloadSize, toInt]
    omega
  have outside : memcpy s.buf s.dataCnt packet.data = none := if_neg (by omega)
  have checked : Runs ((checkPkt s.expSeqNo s.buf s.dataCnt s.bufLen).run packet) [⟨.fault, ()⟩] .halt := by
    rw [checkPkt_run, decided, verdict, if_pos rfl, outside]
    exact .call (.here _)
  have asked : Runs ((xmodemPutc s.cmd).run held) (puts [s.cmd]) (.ret ((), held)) :=
    @Runs.perform Io _ (.putc s.cmd) () held
  have round : Runs ((receiveRound s).run held) (puts [s.cmd] ++ ((frame.bytes.map some).map hears ++ [⟨.fault, ()⟩])) .halt := by
    rw [receiveRound, if_pos (head.errors ▸ patient)]
    exact asked.andThen ((checks _ _ checked).halts _)
  have opened : Runs ((xmodemSetTimeout timeoutStd).run pktBuf) [⟨.setTimeout timeoutStd, ()⟩] (.ret ((), pktBuf)) :=
    @Runs.perform Io _ (.setTimeout timeoutStd) () pktBuf
  refine ⟨_, opened.andThen ((Runs.after reached round.breaks).halts _), ?_⟩
  simp only [outcomes_append, outcomes_puts, outcomes_heard, head.heard]
  change [] ++ (_ ++ ([] ++ (_ ++ []))) = _
  simp

end Overrun

theorem ended_stays {α : Type} {final : Program Io α} (ended : (∃ value, final = .ret value) ∨ final = .halt)
    (event : Event Io) (later : History Io) (rest : Program Io α) : ¬Runs final (event :: later) rest := by
  intro run
  rcases ended with ⟨value, rfl⟩ | rfl <;> cases run

theorem Supplied.agree {answers heard listened : List (Option UInt8)} (one : Supplied answers heard)
    (other : Supplied answers listened) : ∃ unheard more, heard ++ unheard = listened ++ more := by
  obtain ⟨silence, front⟩ := one
  obtain ⟨stillness, ahead⟩ := other
  have longer (early late : Nat) (order : early ≤ late) :
      answers ++ List.replicate early none <+: answers ++ List.replicate late (none : Option UInt8) := by
    apply (List.prefix_append_right_inj _).mpr
    exact ⟨List.replicate (late - early) none, by rw [List.replicate_append_replicate, Nat.add_sub_cancel' order]⟩
  obtain ⟨unheard, same⟩ := front.trans (longer silence (max silence stillness) (Nat.le_max_left _ _))
  obtain ⟨more, equal⟩ := ahead.trans (longer stillness (max silence stillness) (Nat.le_max_right _ _))
  exact ⟨unheard, more, same.trans equal.symm⟩

/-- Given an input that falls silent, a call has an execution that cannot go on. -/
theorem xmodemReceivePackage_ends (buf : List UInt8) (pktBuf : XmodemPacket) (answers : List (Option UInt8)) :
    ∃ whole final, Runs ((xmodemReceivePackage buf).run pktBuf) whole final ∧ Supplied answers (outcomes whole) ∧
      ((∃ result, final = .ret result) ∨ final = .halt ∧ 2 ^ 31 < buf.length) := by
  have fresh : Session (toSize buf.length) [] [] := .opened
  obtain ⟨readings, taken, session, closed, supplied⟩ := fresh.stops answers (by simp [Open])
  simp only [List.nil_append] at session closed
  by_cases beyond : 2 ^ 24 < taken.length
  · obtain ⟨before, accepted, heard, frame, more, earlier, open_, patient, count, same, read⟩ := session.passes beyond
    obtain ⟨history, run, told⟩ := earlier.call_faults open_ patient count read pktBuf
    refine ⟨history, .halt, run, ?_, Or.inr ⟨rfl, ?_⟩⟩
    · obtain ⟨silence, front⟩ := supplied
      rw [same] at front
      exact ⟨silence, told ▸ (List.prefix_append _ _).trans front⟩
    · have fits := session.fits
      have size := toSize_le buf.length
      simp only [packetPayloadSize] at fits
      omega
  · obtain ⟨retv, dialogue, kept, dialogues, run⟩ :=
      session.call_returns closed (by simp only [packetPayloadSize]; omega) pktBuf
    refine ⟨_, _, run, ?_, Or.inl ⟨_, rfl⟩⟩
    rwa [outcomes_timeout, outcomes_append, outcomes_puts, List.nil_append, dialogues.heard]

/-- The packet reads a call has begun: those it has answered and one under way. -/
def attempts (readings : List Reading) (pending : History Io) : Nat :=
  readings.length + if pending.isEmpty then 0 else 1

theorem Conversed.attempts_le {room : Nat} {readings : List Reading} {taken : List Frame} {pending history : History Io}
    (conversed : Conversed room readings taken pending history) :
    attempts readings pending ≤ 5 * taken.length + duplicates readings + 5 := by
  unfold attempts
  split
  · exact conversed.session.attempts_le
  next under =>
    obtain ⟨open_, patient⟩ := conversed.begun (by simpa using under)
    have counted := conversed.session.readings_le open_
    simp only [maxRxErrors] at patient
    omega

/-- Whatever arrives before the peer falls silent, the call ends: one finite execution contains
all that it can do. No run begins more packet reads than its blocks and duplicates allow, and
each of these has used up a whole frame. -/
theorem reception_stops (buf : List UInt8) (pktBuf : XmodemPacket) :
    (∀ answers, ∃ whole final, Runs ((xmodemReceivePackage buf).run pktBuf) whole final ∧
      ((∃ result, final = .ret result) ∨ final = .halt ∧ 2 ^ 31 < buf.length) ∧ Supplied answers (outcomes whole) ∧
      ∀ history rest, Runs ((xmodemReceivePackage buf).run pktBuf) history rest → Supplied answers (outcomes history) →
        history <+: whole) ∧
    (∀ history rest, Runs ((xmodemReceivePackage buf).run pktBuf) history rest →
      history <+: [⟨.setTimeout timeoutStd, ()⟩] ∨ ∃ readings taken pending,
        Conversed (toSize buf.length) readings taken pending history ∧
        attempts readings pending ≤ 5 * taken.length + duplicates readings + 5 ∧
        taken.length ≤ buf.length / packetPayloadSize ∧
        ∀ reading ∈ readings, reading.status = .soh ∨ reading.status = .dup → arrivals reading.heard = 133) := by
  constructor
  · intro answers
    obtain ⟨whole, final, run, supplied, ended⟩ := xmodemReceivePackage_ends buf pktBuf answers
    refine ⟨whole, final, run, ended, supplied, ?_⟩
    intro history rest other heard
    obtain ⟨unheard, more, same⟩ := supplied.agree heard
    exact covers_history run (ended_stays (ended.imp_right And.left)) other same
  · intro history rest run
    apply ((xmodemReceivePackage_converses buf pktBuf).safe run).1.imp_right
    intro conversation
    obtain ⟨readings, taken, pending, conversed⟩ := conversation
    refine ⟨readings, taken, pending, conversed, conversed.attempts_le, ?_, ?_⟩
    · have fits := conversed.session.fits
      have size := toSize_le buf.length
      apply (Nat.le_div_iff_mul_le (by decide)).mpr
      rw [Nat.mul_comm]
      exact Nat.le_trans fits size
    · intro reading member
      obtain ⟨before, after, split⟩ := List.append_of_mem member
      obtain ⟨_, _, _, read, _⟩ := conversed.session.at_reading split
      exact read.consumes

end DfuUtilQda.Xmodem

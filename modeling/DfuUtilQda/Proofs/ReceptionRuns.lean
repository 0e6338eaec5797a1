import DfuUtilQda.Proofs.Reception

/-! The converse of `xmodemReceivePackage_spec`: every session of packet reads occurs.
A round of the loop exists for each reading, and a call for each session that ends. -/

namespace DfuUtilQda.Xmodem
open Interaction Machine

private theorem readRest_occurs (bytes : List UInt8) (pktBuf : XmodemPacket) (short : bytes.length ≤ 132) :
    Runs ((readRest bytes.length).run pktBuf) ((bytes.map some).map hears)
      (.ret (true, pktBuf.store (133 - bytes.length) bytes)) := by
  induction bytes generalizing pktBuf with
  | nil => exact (runs_pure _ _).mpr ⟨rfl, by simp [XmodemPacket.store]⟩
  | cons ch bytes ih =>
    rw [List.length_cons, readRest, runs_getc_seq]
    refine ⟨some ch, _, rfl, ?_⟩
    have rest := ih (pktBuf.store (132 - bytes.length) [ch]) (by simp at short; omega)
    have stored : (pktBuf.store (132 - bytes.length) [ch]).store (133 - bytes.length) bytes =
        pktBuf.store (133 - (bytes.length + 1)) (ch :: bytes) := by
      have next : 133 - bytes.length = 132 - bytes.length + 1 := by simp at short; omega
      rw [next, XmodemPacket.store, XmodemPacket.store, XmodemPacket.store, XmodemPacket.mk.injEq, patch_patch]
      exact congrArg (patch _ · _) (by omega)
    rw [stored] at rest
    exact rest

private theorem readRest_breaks (bytes : List UInt8) (count : Nat) (pktBuf : XmodemPacket) (cut : bytes.length < count) :
    ∃ held, Runs ((readRest count).run pktBuf) ((bytes.map some ++ [none]).map hears) (.ret (false, held)) := by
  induction bytes generalizing count pktBuf with
  | nil =>
    obtain ⟨count, rfl⟩ : ∃ less, count = less + 1 := ⟨count - 1, by simp at cut; omega⟩
    exact ⟨pktBuf, (runs_getc_seq _ _ _ _).mpr ⟨none, [], rfl, (runs_pure _ _).mpr ⟨rfl, rfl⟩⟩⟩
  | cons ch bytes ih =>
    obtain ⟨count, rfl⟩ : ∃ less, count = less + 1 := ⟨count - 1, by simp at cut; omega⟩
    obtain ⟨held, run⟩ := ih count (pktBuf.store (132 - count) [ch]) (by simpa using cut)
    exact ⟨held, (runs_getc_seq _ _ _ _).mpr ⟨some ch, _, rfl, run⟩⟩

private theorem discard_occurs (bytes : List UInt8) (pktBuf : XmodemPacket) :
    Runs (Xmodem.discard.run pktBuf) ((bytes.map some ++ [none]).map hears) (.ret ((), pktBuf)) := by
  refine (runs_loop _ _ _ _ _).mpr ?_
  induction bytes with
  | nil => exact .leave ((runs_getc_seq _ _ _ _).mpr ⟨none, [], rfl, (runs_pure _ _).mpr ⟨rfl, rfl⟩⟩)
  | cons ch bytes ih =>
    exact .again ((runs_getc_seq _ _ _ _).mpr ⟨some ch, [], rfl, (runs_pure _ _).mpr ⟨rfl, rfl⟩⟩) ih

/-- A run of the packet reader that hears `heard`, says nothing and ends as the reading does. -/
def Occurs (expSeqNo : UInt8) (buf : List UInt8) (offset : Int) (len : Nat) (heard : List (Option UInt8))
    (status : Status) (new : List Frame) (pktBuf : XmodemPacket) : Prop :=
  ∃ history after held, Runs ((xmodemReadPkt expSeqNo buf offset len).run pktBuf) history (.ret ((status, after), held)) ∧
    outcomes history = heard ∧ emitted history = [] ∧ Stores buf offset new after

theorem hears_frame (expSeqNo : UInt8) (buf : List UInt8) (offset : Int) (len : Nat) (frame : Frame) (pktBuf : XmodemPacket) :
    ∃ held : XmodemPacket, held.data = frame.data ∧ held.verdict expSeqNo len = frame.verdict expSeqNo len ∧
      ∀ later rest, Runs ((checkPkt expSeqNo buf offset len).run held) later rest →
        Runs ((xmodemReadPkt expSeqNo buf offset len).run pktBuf) ((frame.bytes.map some).map hears ++ later) rest := by
  obtain ⟨⟨bytes, size⟩, marked⟩ := frame
  cases bytes with
  | nil => simp at size
  | cons ch bytes =>
    obtain rfl : ch = soh := by simpa using marked
    have length : bytes.length = 132 := by simpa using size
    obtain ⟨payload, verdict⟩ := pktBuf.ignores_mark bytes length
    have read := readRest_occurs bytes pktBuf (by omega)
    rw [length] at read
    refine ⟨pktBuf.store 1 bytes, payload, verdict _ _, fun later rest run => ?_⟩
    have first : Runs (xmodemGetc.run pktBuf) [hears (some soh)] (.ret (some soh, pktBuf)) :=
      @Runs.perform Io _ .getc (some soh) pktBuf
    exact first.andThen (read.andThen run)

private theorem occurs_frame {expSeqNo : UInt8} {buf : List UInt8} {offset : Int} {len : Nat} {after : List UInt8}
    {status : Status} (frame : Frame) (pktBuf : XmodemPacket)
    (decided : ∀ held : XmodemPacket, held.data = frame.data → held.verdict expSeqNo len = frame.verdict expSeqNo len →
      (checkPkt expSeqNo buf offset len).run held = pure ((status, after), held)) :
    ∃ held, Runs ((xmodemReadPkt expSeqNo buf offset len).run pktBuf) ((frame.bytes.map some).map hears)
      (.ret ((status, after), held)) := by
  obtain ⟨held, payload, verdict, checks⟩ := hears_frame expSeqNo buf offset len frame pktBuf
  refine ⟨held, ?_⟩
  rw [← List.append_nil ((frame.bytes.map some).map hears)]
  apply checks
  rw [decided held payload verdict]
  exact .here _

theorem ReadsPkt.occurs {expSeqNo : UInt8} {len : Nat} {heard : List (Option UInt8)} {status : Status} {new : List Frame}
    (read : ReadsPkt expSeqNo len heard status new) {buf : List UInt8} {offset : Int}
    (fits : status = .soh → packetPayloadSize ≤ len → 0 ≤ offset ∧ offset + packetPayloadSize ≤ buf.length)
    (pktBuf : XmodemPacket) : Occurs expSeqNo buf offset len heard status new pktBuf := by
  cases read with
  | timeout =>
    exact ⟨[hears none], buf, pktBuf, (runs_getc_seq _ _ _ _).mpr ⟨none, [], rfl, (runs_pure _ _).mpr ⟨rfl, rfl⟩⟩,
      rfl, rfl, Or.inl ⟨rfl, rfl⟩⟩
  | eot =>
    exact ⟨[hears (some Xmodem.eot)], buf, pktBuf,
      (runs_getc_seq _ _ _ _).mpr ⟨some Xmodem.eot, [], rfl, (runs_pure _ _).mpr ⟨rfl, rfl⟩⟩, rfl, rfl, Or.inl ⟨rfl, rfl⟩⟩
  | noise ch bytes unmarked running =>
    refine ⟨hears (some ch) :: ⟨.setTimeout timeoutErr, ()⟩ :: ((bytes.map some ++ [none]).map hears ++
      [⟨.setTimeout timeoutStd, ()⟩]), buf, pktBuf, (runs_getc_seq _ _ _ _).mpr ⟨some ch, _, rfl, ?_⟩, by simp [-List.map_map], by simp [-List.map_map],
      Or.inl ⟨rfl, rfl⟩⟩
    simp only [unmarked, running, if_false]
    refine (runs_setTimeout_seq _ _ _ _ _).mpr ⟨_, rfl, (runs_seq _ _ _ _ _).mpr ⟨(), pktBuf, _, _, discard_occurs bytes pktBuf, ?_, rfl⟩⟩
    exact (runs_setTimeout_seq _ _ _ _ _).mpr ⟨[], rfl, (runs_pure _ _).mpr ⟨rfl, rfl⟩⟩
  | short bytes cut =>
    obtain ⟨held, read⟩ := readRest_breaks bytes 132 pktBuf cut
    refine ⟨hears (some soh) :: (bytes.map some ++ [none]).map hears, buf, held,
      (runs_getc_seq _ _ _ _).mpr ⟨some soh, _, rfl, ?_⟩, by simp [-List.map_map], by simp [-List.map_map], Or.inl ⟨rfl, rfl⟩⟩
    simp only [if_true]
    rw [runs_seq]
    exact ⟨false, held, _, [], read, (runs_pure _ _).mpr ⟨rfl, rfl⟩, by simp⟩
  | refused frame verdict =>
    have decided (held : XmodemPacket) (payload : held.data = frame.data)
        (same : held.verdict expSeqNo len = frame.verdict expSeqNo len) :
        (checkPkt expSeqNo buf offset len).run held = pure ((frame.verdict expSeqNo len, buf), held) := by
      rw [checkPkt_run, same, if_neg verdict]
    obtain ⟨held, run⟩ := occurs_frame frame pktBuf decided
    exact ⟨_, buf, held, run, outcomes_heard _, emitted_heard _, Or.inl ⟨rfl, rfl⟩⟩
  | taken frame verdict =>
    have inside := fits rfl (XmodemPacket.verdict_soh.mp verdict).2.2
    obtain ⟨after, stored⟩ := memcpy_fits buf offset frame.data (by rwa [frame.data_length])
    have decided (held : XmodemPacket) (payload : held.data = frame.data)
        (same : held.verdict expSeqNo len = frame.verdict expSeqNo len) :
        (checkPkt expSeqNo buf offset len).run held = pure ((.soh, after), held) := by
      rw [checkPkt_run, same, if_pos verdict, payload, stored]
    obtain ⟨held, run⟩ := occurs_frame frame pktBuf decided
    exact ⟨_, after, held, run, outcomes_heard _, emitted_heard _, Or.inr ⟨frame, rfl, stored⟩⟩

/-- What a session looks like from the receiver: it hears each reading silently and then replies. -/
inductive Dialogue : List Reading → History Io → Prop where
  | nil : Dialogue [] []
  | cons {reading : Reading} {readings : List Reading} {heard later : History Io}
      (arrival : outcomes heard = reading.heard) (silent : emitted heard = []) (rest : Dialogue readings later) :
      Dialogue (reading :: readings) (heard ++ puts [reading.reply] ++ later)

theorem Dialogue.snoc {readings : List Reading} {history heard : History Io} (dialogue : Dialogue readings history)
    (reading : Reading) (arrival : outcomes heard = reading.heard) (silent : emitted heard = []) :
    Dialogue (readings ++ [reading]) (history ++ (heard ++ puts [reading.reply])) := by
  induction dialogue with
  | nil => simpa using Dialogue.cons arrival silent .nil
  | cons before quiet _ ih => simpa using Dialogue.cons before quiet ih

theorem Dialogue.heard {readings : List Reading} {history : History Io} (dialogue : Dialogue readings history) :
    outcomes history = readings.flatMap Reading.heard := by
  induction dialogue with
  | nil => rfl
  | cons arrival silent rest ih => simp [arrival, ih]

theorem Dialogue.said {readings : List Reading} {history : History Io} (dialogue : Dialogue readings history) :
    emitted history = readings.map Reading.reply := by
  induction dialogue with
  | nil => rfl
  | cons arrival silent rest ih => simp [silent, ih]

def Open (readings : List Reading) : Prop := ∀ reading ∈ readings, reading.status ≠ .eot ∧ reading.status ≠ .can

variable {buf : List UInt8} {readings : List Reading} {taken : List Frame} {s : Reception} {now : History Io}

theorem Session.extends {room : Nat} {before : List Reading} {heard : List (Option UInt8)} {status : Status} {new : List Frame}
    (session : Session room before taken) (open_ : Open before) (patient : errorRun before < maxRxErrors)
    (read : ReadsPkt (UInt8.ofNat (taken.length + 1)) (room - packetPayloadSize * taken.length) heard status new)
    (goes : status ≠ .eot ∧ status ≠ .can) :
    Session room (before ++ [⟨heard, status, replyTo (taken ++ new).length status⟩]) (taken ++ new) ∧
      Open (before ++ [⟨heard, status, replyTo (taken ++ new).length status⟩]) := by
  refine ⟨.read session open_ patient read, ?_⟩
  intro reading member
  rcases List.mem_append.mp member with earlier | last
  · exact open_ reading earlier
  · rw [List.mem_singleton.mp last]
    exact goes

/-- What the receiver makes of silence before the first block, as when its 'C' was lost. -/
def unheard : Reading := ⟨[none], .err, charC⟩

theorem unheard_session (room lost : Nat) (few : lost ≤ maxRxErrors) :
    Session room (List.replicate lost unheard) [] ∧ Open (List.replicate lost unheard) ∧
      errorRun (List.replicate lost unheard) = lost := by
  induction lost with
  | zero => exact ⟨.opened, by simp [Open], rfl⟩
  | succ lost ih =>
    obtain ⟨session, open_, errors⟩ := ih (by omega)
    obtain ⟨session, open_⟩ := session.extends open_ (by omega) .timeout (by simp)
    rw [List.replicate_succ']
    exact ⟨session, open_, (errorRun_snoc _ _).trans (congrArg (· + 1) errors)⟩

theorem AtHead.left (head : AtHead buf readings taken s now) :
    toSize buf.length - packetPayloadSize * taken.length = s.bufLen := by
  have total := head.room
  omega

/-- What the loop makes of a reading. -/
def Reception.settle (s : Reception) (buf : List UInt8) : Status → Reception ⊕ Received
  | .soh => .inl { s with
      buf, nak := Xmodem.nak, cmd := ack, errCnt := 0
      dataCnt := toInt (s.dataCnt + packetPayloadSize)
      bufLen := toSize (s.bufLen - packetPayloadSize)
      expSeqNo := s.expSeqNo + 1 }
  | .dup => .inl { s with buf, cmd := ack }
  | .eot => .inr ⟨s.dataCnt, ack, buf⟩
  | .can => .inr ⟨-1, can, buf⟩
  | .err => .inl { s with buf, errCnt := s.errCnt + 1, cmd := s.nak }

theorem receiveRound_occurs {status : Status} {after : List UInt8} {later : History Io} {pktBuf held : XmodemPacket}
    (patient : s.errCnt < maxRxErrors)
    (run : Runs ((xmodemReadPkt s.expSeqNo s.buf s.dataCnt s.bufLen).run pktBuf) later (.ret ((status, after), held))) :
    Runs ((receiveRound s).run pktBuf) (puts [s.cmd] ++ later) (.ret (s.settle after status, held)) := by
  rw [receiveRound, if_pos patient]
  refine (runs_seq _ _ _ _ _).mpr ⟨(), pktBuf, _, _, (runs_putc _ _ _).mpr ⟨rfl, rfl⟩, ?_, rfl⟩
  refine (runs_seq _ _ _ _ _).mpr ⟨_, _, _, [], run, ?_, by simp⟩
  cases status <;> exact (runs_pure _ _).mpr ⟨rfl, rfl⟩

private theorem round_occurs {heard : List (Option UInt8)} {status : Status} {new : List Frame}
    (head : AtHead buf readings taken s now) (small : packetPayloadSize * (taken ++ new).length ≤ 2 ^ 31)
    (patient : errorRun readings < maxRxErrors)
    (read : ReadsPkt (UInt8.ofNat (taken.length + 1)) (toSize buf.length - packetPayloadSize * taken.length) heard status new)
    (goes : status ≠ .eot ∧ status ≠ .can) (pktBuf : XmodemPacket) :
    ∃ next later held, Runs ((receiveRound s).run pktBuf) (puts [s.cmd] ++ later) (.ret (.inl next, held)) ∧
      outcomes later = heard ∧ emitted later = [] ∧
      AtHead buf (readings ++ [⟨heard, status, replyTo (taken ++ new).length status⟩]) (taken ++ new) next
        (now ++ puts [s.cmd] ++ later) := by
  rw [← head.errors] at patient
  rw [← head.number, head.left] at read
  have inside (accepted : status = .soh) (room : packetPayloadSize ≤ s.bufLen) :
      0 ≤ s.dataCnt ∧ s.dataCnt + packetPayloadSize ≤ s.buf.length := by
    subst accepted
    obtain ⟨frame, rfl, _⟩ := read.taken_one
    rw [List.length_append, List.length_singleton] at small
    exact head.offset (by simp only [packetPayloadSize] at small ⊢; omega) room
  obtain ⟨later, after, held, run, rfl, silent, store⟩ := read.occurs inside pktBuf
  have round := receiveRound_occurs patient run
  cases status with
  | soh => exact ⟨_, later, held, round, rfl, silent, head.again patient silent read store (Or.inl ⟨rfl, rfl⟩)⟩
  | dup => exact ⟨_, later, held, round, rfl, silent, head.again patient silent read store (Or.inr (Or.inl ⟨rfl, rfl⟩))⟩
  | err => exact ⟨_, later, held, round, rfl, silent, head.again patient silent read store (Or.inr (Or.inr ⟨rfl, rfl⟩))⟩
  | eot | can => simp at goes

theorem Session.head_occurs (session : Session (toSize buf.length) readings taken) (open_ : Open readings)
    (small : packetPayloadSize * taken.length ≤ 2 ^ 31) (pktBuf : XmodemPacket) :
    ∃ s held history dialogue, Static.LoopHead receiveRound (Reception.start buf) pktBuf s held history ∧
      AtHead buf readings taken s history ∧ Dialogue readings dialogue ∧
      history ++ puts [s.cmd] = puts [charC] ++ dialogue := by
  induction session with
  | opened => exact ⟨_, pktBuf, [], [], .enter, .start buf [] rfl rfl, .nil, rfl⟩
  | @read readings taken heard status new earlier before patient next ih =>
    have fewer : packetPayloadSize * taken.length ≤ 2 ^ 31 := by
      simp only [List.length_append, packetPayloadSize] at small ⊢
      omega
    obtain ⟨s, held, history, dialogue, reached, head, dialogues, same⟩ := ih before fewer
    obtain ⟨after, later, kept, run, arrival, silent, further⟩ :=
      round_occurs head small patient next (open_ _ (List.mem_append_right _ (List.mem_singleton.mpr rfl))) held
    refine ⟨after, kept, _, _, .again reached run, by simpa using further,
      dialogues.snoc ⟨heard, status, replyTo (taken ++ new).length status⟩ arrival silent, ?_⟩
    rw [← List.append_assoc history, same, further.replies]
    simp

theorem call_leaves {pktBuf held kept : XmodemPacket} {history later : History Io} {ended : Received}
    (reached : Static.LoopHead receiveRound (Reception.start buf) pktBuf s held history)
    (round : Runs ((receiveRound s).run held) later (.ret (.inr ended, kept))) :
    Runs ((xmodemReceivePackage buf).run pktBuf) (⟨.setTimeout timeoutStd, ()⟩ :: (history ++ later ++ puts [ended.cmd]))
      (.ret ((ended.retv, ended.buf), kept)) := by
  have looped := (runs_loop _ _ _ _ _).mpr (reached.rounds (.leave round))
  apply (runs_setTimeout_seq _ _ _ _ _).mpr
  refine ⟨_, rfl, (runs_seq _ _ _ _ _).mpr ⟨ended, kept, _, _, looped, ?_, rfl⟩⟩
  exact (runs_seq _ _ _ _ _).mpr ⟨(), kept, _, [], (runs_putc _ _ _).mpr ⟨rfl, rfl⟩, (runs_pure _ _).mpr ⟨rfl, rfl⟩, by simp⟩

theorem Session.reading_ends {heard : List (Option UInt8)} {status : Status} (session : Session (toSize buf.length) readings taken)
    (open_ : Open readings) (patient : errorRun readings < maxRxErrors) (small : packetPayloadSize * taken.length ≤ 2 ^ 31)
    (read : ReadsPkt (UInt8.ofNat (taken.length + 1)) (toSize buf.length - packetPayloadSize * taken.length) heard status [])
    (final : status = .eot ∨ status = .can) (pktBuf : XmodemPacket) :
    ∃ dialogue kept, Dialogue (readings ++ [⟨heard, status, replyTo taken.length status⟩]) dialogue ∧
      Runs ((xmodemReceivePackage buf).run pktBuf) (⟨.setTimeout timeoutStd, ()⟩ :: (puts [charC] ++ dialogue))
        (.ret ((if status = .eot then toInt (packetPayloadSize * taken.length) else -1, contents buf taken), kept)) := by
  obtain ⟨s, held, history, dialogue, reached, head, dialogues, same⟩ := session.head_occurs open_ small pktBuf
  have other : status ≠ .soh := by rcases final with rfl | rfl <;> simp
  rw [← head.number, head.left] at read
  have occurs : Occurs s.expSeqNo s.buf s.dataCnt s.bufLen heard status [] held :=
    read.occurs (fun accepted => absurd accepted other) held
  obtain ⟨later, after, kept, run, arrival, silent, store⟩ := occurs
  obtain ⟨_, rfl⟩ | ⟨_, impossible, _⟩ := store
  · have round := receiveRound_occurs (head.errors ▸ patient) run
    refine ⟨_, kept, dialogues.snoc ⟨heard, status, replyTo taken.length status⟩ arrival silent, ?_⟩
    rw [← List.append_assoc (puts [charC]), ← same, ← head.count, ← head.stored]
    rcases final with rfl | rfl <;> simpa [replyTo] using call_leaves reached round
  · cases impossible

/-- A session that goes on until an EOT is a whole call, and its dialogue is the call's history. -/
theorem Session.call_occurs (session : Session (toSize buf.length) readings taken)
    (open_ : Open readings) (small : packetPayloadSize * taken.length < 2 ^ 31) (patient : errorRun readings < maxRxErrors)
    (pktBuf : XmodemPacket) :
    ∃ dialogue kept, Dialogue (readings ++ [⟨[some eot], .eot, ack⟩]) dialogue ∧
      Runs ((xmodemReceivePackage buf).run pktBuf) (⟨.setTimeout timeoutStd, ()⟩ :: (puts [charC] ++ dialogue))
        (.ret ((packetPayloadSize * taken.length, contents buf taken), kept)) := by
  have ended := session.reading_ends open_ patient (Nat.le_of_lt small) .eot (Or.inl rfl) pktBuf
  rwa [if_pos rfl, toInt_of_range (by omega) (by exact_mod_cast small)] at ended

/-- A conversation after which no packet is waited for. -/
def Closed (readings : List Reading) : Prop := ¬Open readings ∨ errorRun readings = maxRxErrors

theorem Session.call_returns (session : Session (toSize buf.length) readings taken) (closed : Closed readings)
    (small : packetPayloadSize * taken.length ≤ 2 ^ 31) (pktBuf : XmodemPacket) :
    ∃ retv dialogue kept, Dialogue readings dialogue ∧
      Runs ((xmodemReceivePackage buf).run pktBuf) (⟨.setTimeout timeoutStd, ()⟩ :: (puts [charC] ++ dialogue))
        (.ret ((retv, contents buf taken), kept)) := by
  by_cases open_ : Open readings
  · have full := closed.resolve_left (not_not.mpr open_)
    obtain ⟨s, held, history, dialogue, reached, head, dialogues, same⟩ := session.head_occurs open_ small pktBuf
    have round : Runs ((receiveRound s).run held) [] (.ret (.inr ⟨-1, s.cmd, s.buf⟩, held)) := by
      rw [receiveRound, if_neg (by rw [head.errors, full]; exact Nat.lt_irrefl _)]
      exact (runs_pure _ _).mpr ⟨rfl, rfl⟩
    have call := call_leaves reached round
    rw [List.append_nil, same, head.stored] at call
    exact ⟨-1, dialogue, held, dialogues, call⟩
  · cases session with
    | opened => simp [Open] at open_
    | @read before taken heard status new earlier going patient next =>
      have final : status = .eot ∨ status = .can := by
        by_contra goes
        exact open_ (earlier.extends going patient next (not_or.mp goes)).2
      obtain rfl := next.taken_nil (by rcases final with rfl | rfl <;> simp)
      rw [List.append_nil] at small ⊢
      obtain ⟨dialogue, kept, call⟩ := earlier.reading_ends going patient small next final pktBuf
      exact ⟨_, dialogue, kept, call⟩

end DfuUtilQda.Xmodem

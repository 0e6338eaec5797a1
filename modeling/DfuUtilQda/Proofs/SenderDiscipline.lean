import DfuUtilQda.Proofs.ReceptionParse
import DfuUtilQda.Proofs.Transmission

/-! What a call of `xmodem_transmit_package` sends, for every sequence of answers, and
the number of bytes it returns. The packet counter it returns them from has one byte. -/

namespace DfuUtilQda.Xmodem
open Interaction Machine

/-- Attempts that go on until `wanted` is heard, and not longer than three times. -/
structure Tried (wanted : UInt8) (answers : List (Option UInt8)) : Prop where
  some : answers ≠ []
  few : answers.length ≤ maxRetransmit
  going : Option.some wanted ∉ answers.dropLast
  spent : Option.some wanted ∉ answers → answers.length = maxRetransmit

/-- A frame with the answers to its copies. -/
structure Sending where
  frame : Frame
  answers : List (Option UInt8)

def Sending.history (sending : Sending) : History Io := copies sending.frame.bytes sending.answers

def Sending.acked (sending : Sending) : Prop := some ack ∈ sending.answers

/-- A disciplined call: what it reads before the start, the frames it sends with the
answers to them, the answers to the EOT, and the value it returns. -/
structure Disciplined (data : List UInt8) (starts : List (Option UInt8)) (sendings : List Sending)
    (ends : List (Option UInt8)) (retv : Int) : Prop where
  starting : Tried charC starts
  unstarted : some charC ∉ starts → sendings = [] ∧ ends = []
  frames : ∀ (index : Nat) sending, sendings[index]? = some sending →
    IsBlock data index sending.frame ∧ sending.frame.intact = true ∧ Tried ack sending.answers
  ordered : ∀ (index : Nat) sending, sendings[index]? = some sending → index + 1 < sendings.length → sending.acked
  broken : some charC ∈ starts → sendings.length = blockCount data ∨ ∃ last, sendings.getLast? = some last ∧ ¬last.acked
  ending : ends ≠ [] ↔ some charC ∈ starts ∧ sendings.length = blockCount data ∧ ∀ sending ∈ sendings, sending.acked
  closing : ends = [] ∨ Tried ack ends
  failure : some ack ∉ ends → retv = -1

/-- The history of a call that reads and sends these things. -/
def callHistory (starts : List (Option UInt8)) (sendings : List Sending) (ends : List (Option UInt8)) : History Io :=
  ⟨.setTimeout timeoutStd, ()⟩ :: starts.map hears ++ sendings.flatMap Sending.history ++ copies [eot] ends

/-- The answers are those that come on the line from one point on. -/
def Arrive (line : Nat → Option UInt8) (start : Nat) (answers : List (Option UInt8)) : Prop :=
  answers = (List.range answers.length).map fun index => line (start + index)

theorem Arrive.append {line : Nat → Option UInt8} {start : Nat} {early late : List (Option UInt8)}
    (first : Arrive line start early) (second : Arrive line (start + early.length) late) : Arrive line start (early ++ late) := by
  rw [Arrive, List.length_append, List.range_add, List.map_append, List.map_map]
  simp only [Arrive, Nat.add_assoc] at first second
  rw [← first]
  exact congrArg (early ++ ·) second

theorem Arrive.extends {line : Nat → Option UInt8} {start : Nat} {early late : List (Option UInt8)}
    (first : Arrive line start early) (second : Arrive line start late) (shorter : early.length ≤ late.length) :
    ∃ more, late = early ++ more := by
  obtain ⟨count, length⟩ := Nat.exists_eq_add_of_le shorter
  rw [Arrive, length, List.range_add, List.map_append, ← first] at second
  exact ⟨_, second⟩

theorem Arrive.comparable {line : Nat → Option UInt8} {start : Nat} {one other : List (Option UInt8)}
    (first : Arrive line start one) (second : Arrive line start other) : ∃ more rest, one ++ more = other ++ rest := by
  obtain shorter | longer := Nat.le_total one.length other.length
  · obtain ⟨more, rfl⟩ := first.extends second shorter
    exact ⟨more, [], (List.append_nil _).symm⟩
  · obtain ⟨rest, rfl⟩ := second.extends first longer
    exact ⟨[], rest, List.append_nil _⟩

theorem arrive_cons {line : Nat → Option UInt8} {start : Nat} {answers : List (Option UInt8)}
    (later : Arrive line (start + 1) answers) : Arrive line start (line start :: answers) := by
  have first : Arrive line start [line start] := by simp [Arrive]
  exact first.append later

@[simp] theorem outcomes_copies (unit : List UInt8) (answers : List (Option UInt8)) :
    outcomes (copies unit answers) = answers := by
  induction answers with
  | nil => rfl
  | cons answer answers ih =>
    rw [copies, List.flatMap_cons, ← copies]
    simp [ih]

theorem Answered.tried {wanted : UInt8} {tries : Nat} {answers : List (Option UInt8)} {ok : Bool}
    (answered : Answered wanted tries answers ok) :
    answers.length ≤ tries ∧ some wanted ∉ answers.dropLast ∧ (some wanted ∈ answers ↔ ok = true) ∧
      (ok = false → answers.length = tries) := by
  induction answered with
  | spent => simp
  | heard => simp
  | @other tries answer answers ok different later ih =>
    obtain ⟨few, going, heard, spent⟩ := ih
    refine ⟨Nat.succ_le_succ few, ?_, ?_, fun failed => congrArg Nat.succ (spent failed)⟩
    · intro early
      cases answers with
      | nil => simp at early
      | cons next answers =>
        obtain same | member := List.mem_cons.mp early
        · exact different same.symm
        · exact going member
    · rw [List.mem_cons, heard]
      exact or_iff_right (Ne.symm different)

theorem Answered.in_three {wanted : UInt8} {answers : List (Option UInt8)} {ok : Bool}
    (answered : Answered wanted maxRetransmit answers ok) : Tried wanted answers ∧ (some wanted ∈ answers ↔ ok = true) := by
  obtain ⟨few, going, heard, spent⟩ := answered.tried
  refine ⟨⟨answered.nonempty, few, going, fun unheard => spent ?_⟩, heard⟩
  cases ok with
  | true => exact absurd (heard.mpr rfl) unheard
  | false => rfl

theorem answered_along (wanted : UInt8) (line : Nat → Option UInt8) (tries start : Nat) :
    ∃ answers ok, Answered wanted tries answers ok ∧ Arrive line start answers := by
  induction tries generalizing start with
  | zero => exact ⟨[], false, .spent, rfl⟩
  | succ tries ih =>
    by_cases heard : line start = some wanted
    · exact ⟨[some wanted], true, .heard, by simp [Arrive, heard]⟩
    · obtain ⟨answers, ok, answered, arrive⟩ := ih (start + 1)
      exact ⟨line start :: answers, ok, .other heard answered, arrive_cons arrive⟩

theorem blocks_along (line : Nat → Option UInt8) (data : List UInt8) (pktBuf : XmodemPacket) (pktNo : UInt8) (start : Nat) :
    ∃ history last kept, SendsBlocks pktBuf data pktNo history last kept ∧ Arrive line start (outcomes history) := by
  generalize size : data.length = count
  induction count using Nat.strongRecOn generalizing data pktBuf pktNo start with
  | ind count ih =>
    by_cases more : data = []
    · exact ⟨[], some pktNo, pktBuf, more ▸ .done, rfl⟩
    · obtain ⟨answers, ok, answered, arrive⟩ := answered_along ack line maxRetransmit start
      cases ok with
      | false => exact ⟨_, none, _, .failed more answered, by simpa using arrive⟩
      | true =>
        have positive := List.length_pos_of_ne_nil more
        obtain ⟨history, last, kept, sends, later⟩ :=
          ih (data.drop packetPayloadSize).length (by rw [List.length_drop, packetPayloadSize]; omega)
            (data.drop packetPayloadSize) (pktBuf.fill (data.take packetPayloadSize) pktNo) (pktNo + 1)
            (start + answers.length) rfl
        refine ⟨_, last, kept, .sent more answered sends, ?_⟩
        rw [outcomes_append, outcomes_copies]
        exact arrive.append later

theorem call_along (line : Nat → Option UInt8) (data : List UInt8) (pktBuf : XmodemPacket) :
    ∃ now retv kept, Transmits pktBuf data now retv kept ∧ Arrive line 0 (outcomes now) := by
  obtain ⟨starts, started, waited, arrive⟩ := answered_along charC line maxRetransmit 0
  cases started with
  | false => exact ⟨_, _, _, .unstarted waited, by simpa using arrive⟩
  | true =>
    obtain ⟨history, last, kept, sends, later⟩ := blocks_along line data pktBuf 1 (0 + starts.length)
    cases last with
    | none => exact ⟨_, _, _, .broken waited sends, by simpa using arrive.append later⟩
    | some pktNo =>
      obtain ⟨ends, ok, answered, after⟩ := answered_along ack line maxRetransmit (0 + (starts ++ outcomes history).length)
      exact ⟨_, _, _, .finished waited sends answered, by simpa using (arrive.append later).append after⟩

/-- What the block loop sends from block `index` on, and the packet number it comes to. -/
structure Sent (data : List UInt8) (index : Nat) (sendings : List Sending) (last : Option UInt8) : Prop where
  frames : ∀ (place : Nat) sending, sendings[place]? = some sending →
    IsBlock data (index + place) sending.frame ∧ sending.frame.intact = true ∧ Tried ack sending.answers
  ordered : ∀ (place : Nat) sending, sendings[place]? = some sending → place + 1 < sendings.length → sending.acked
  finished : ∀ pktNo, last = some pktNo →
    index + sendings.length = blockCount data ∧ (∀ sending ∈ sendings, sending.acked) ∧ pktNo = UInt8.ofNat (blockCount data + 1)
  failed : last = none → ∃ sending, sendings.getLast? = some sending ∧ ¬sending.acked

theorem Sent.cons {data : List UInt8} {index : Nat} {sending : Sending} {sendings : List Sending} {last : Option UInt8}
    (block : IsBlock data index sending.frame) (intact : sending.frame.intact = true) (tried : Tried ack sending.answers)
    (acked : sending.acked) (later : Sent data (index + 1) sendings last) : Sent data index (sending :: sendings) last where
  frames := by
    intro place other found
    cases place with
    | zero =>
      cases found
      exact ⟨block, intact, tried⟩
    | succ place =>
      rw [Nat.add_comm place, ← Nat.add_assoc]
      exact later.frames place other found
  ordered := by
    intro place other found inside
    cases place with
    | zero =>
      cases found
      exact acked
    | succ place => exact later.ordered place other found (Nat.lt_of_succ_lt_succ inside)
  finished := by
    intro pktNo same
    obtain ⟨count, all, number⟩ := later.finished pktNo same
    exact ⟨by rw [List.length_cons]; omega, List.forall_mem_cons.mpr ⟨acked, all⟩, number⟩
  failed := by
    intro same
    obtain ⟨other, final, refused⟩ := later.failed same
    exact ⟨other, by rw [List.getLast?_cons, final]; rfl, refused⟩

theorem SendsBlocks.sendings {data rest : List UInt8} {pktBuf kept : XmodemPacket} {index : Nat} {history : History Io}
    {pktNo : UInt8} {last : Option UInt8} (sends : SendsBlocks pktBuf rest pktNo history last kept)
    (place : rest = data.drop (packetPayloadSize * index)) (number : pktNo = UInt8.ofNat (index + 1))
    (inside : index ≤ blockCount data) :
    ∃ sendings, history = sendings.flatMap Sending.history ∧ Sent data index sendings last := by
  have block {pktBuf : XmodemPacket} {rest : List UInt8} {pktNo : UInt8} {index : Nat} (more : rest ≠ [])
      (place : rest = data.drop (packetPayloadSize * index)) (number : pktNo = UInt8.ofNat (index + 1)) :
      ∃ frame : Frame, frame.toXmodemPacket = pktBuf.fill (rest.take packetPayloadSize) pktNo ∧ IsBlock data index frame ∧
        frame.intact = true := by
    have short : (rest.take packetPayloadSize).length ≤ 128 := List.length_take_le _ _
    refine ⟨⟨_, pktBuf.fill_marked _ _ short⟩, rfl, ⟨?_, (pktBuf.fill_seqNo _ _ short).trans number, ?_⟩,
      pktBuf.fill_intact _ _ short⟩
    · have positive := List.length_pos_of_ne_nil more
      rw [place] at positive
      simp only [List.length_drop, blockCount, packetPayloadSize] at positive ⊢
      omega
    · rw [← place]
      exact pktBuf.fill_block rest pktNo
  induction sends generalizing index with
  | done =>
    have length := congrArg List.length place
    have all : index = blockCount data := by
      simp only [List.length_nil, List.length_drop, blockCount, packetPayloadSize] at length inside ⊢
      omega
    exact ⟨[], rfl, by simp, by simp, fun _ same => ⟨all, by simp, by cases same; rw [number, all]⟩, by simp⟩
  | @failed pktBuf rest pktNo answers more refused =>
    obtain ⟨frame, same, isBlock, intact⟩ := @block pktBuf _ _ _ more place number
    obtain ⟨tried, heard⟩ := refused.in_three
    have unheard : some ack ∉ answers := by simp [heard]
    refine ⟨[⟨frame, answers⟩], by simp [Sending.history, same], ?_, by simp, by simp, fun _ => ⟨_, rfl, unheard⟩⟩
    intro place sending found
    obtain ⟨rfl, rfl⟩ : place = 0 ∧ sending = ⟨frame, answers⟩ := by
      cases place with
      | zero => exact ⟨rfl, (Option.some.inj found).symm⟩
      | succ => cases found
    exact ⟨isBlock, intact, tried⟩
  | @sent pktBuf kept rest pktNo answers later last more acked _ ih =>
    obtain ⟨frame, same, isBlock, intact⟩ := @block pktBuf _ _ _ more place number
    obtain ⟨tried, heard⟩ := acked.in_three
    obtain ⟨sendings, rfl, sent⟩ := @ih (index + 1) (by rw [place, List.drop_drop]; rfl) (by rw [number]; simp) isBlock.exists_
    have first : copies (pktBuf.fill (rest.take packetPayloadSize) pktNo).bytes answers = Sending.history ⟨frame, answers⟩ :=
      congrArg (fun packet : XmodemPacket => copies packet.bytes answers) same.symm
    exact ⟨⟨frame, answers⟩ :: sendings, by rw [first, List.flatMap_cons], sent.cons isBlock intact tried (heard.mpr rfl)⟩

theorem Transmits.disciplined {data : List UInt8} {pktBuf kept : XmodemPacket} {now : History Io} {retv : Int}
    (transmits : Transmits pktBuf data now retv kept) :
    ∃ starts sendings ends, now = callHistory starts sendings ends ∧ Disciplined data starts sendings ends retv := by
  cases transmits with
  | @unstarted starts deaf =>
    obtain ⟨tried, heard⟩ := deaf.in_three
    have unheard : some charC ∉ starts := by simp [heard]
    exact ⟨starts, [], [], by simp [callHistory, copies], tried, fun _ => ⟨rfl, rfl⟩, by simp, by simp,
      fun begun => absurd begun unheard, by simp [unheard], .inl rfl, fun _ => rfl⟩
  | @broken starts blocks _ started sent =>
    obtain ⟨tried, heard⟩ := started.in_three
    have begun : some charC ∈ starts := heard.mpr rfl
    obtain ⟨sendings, rfl, all⟩ := @SendsBlocks.sendings data data _ _ 0 _ _ _ sent rfl rfl (Nat.zero_le _)
    obtain ⟨last, final, refused⟩ := all.failed rfl
    refine ⟨starts, sendings, [], by simp [callHistory, copies], tried, fun unheard => absurd begun unheard, ?_, all.ordered,
      fun _ => .inr ⟨last, final, refused⟩, ?_, .inl rfl, fun _ => rfl⟩
    · simpa using all.frames
    · constructor
      · intro some
        exact absurd rfl some
      · intro complete
        exact absurd (complete.2.2 last (List.mem_of_getLast? final)) refused
  | @finished starts ends blocks _ pktNo ok started sent ended =>
    obtain ⟨tried, heard⟩ := started.in_three
    obtain ⟨closing, answered⟩ := ended.in_three
    have begun : some charC ∈ starts := heard.mpr rfl
    obtain ⟨sendings, rfl, all⟩ := @SendsBlocks.sendings data data _ _ 0 _ _ _ sent rfl rfl (Nat.zero_le _)
    obtain ⟨count, acked, _⟩ := all.finished pktNo rfl
    rw [Nat.zero_add] at count
    refine ⟨starts, sendings, ends, rfl, tried, fun unheard => absurd begun unheard, ?_, all.ordered,
      fun _ => .inl count, ⟨fun _ => ⟨begun, count, acked⟩, fun _ => closing.some⟩, .inr closing, ?_⟩
    · simpa using all.frames
    · intro unheard
      cases ok with
      | true => exact absurd (answered.mpr rfl) unheard
      | false => rfl

/-- For every sequence of answers the call returns, in one way only, and is disciplined. -/
theorem sender_discipline (data : List UInt8) (pktBuf : XmodemPacket) (line : Nat → Option UInt8) :
    ∃ now retv kept starts sendings ends,
      Runs ((xmodemTransmitPackage data).run pktBuf) now (.ret (retv, kept)) ∧ Arrive line 0 (outcomes now) ∧
      now = callHistory starts sendings ends ∧ Disciplined data starts sendings ends retv ∧
      ∀ other found held, Runs ((xmodemTransmitPackage data).run pktBuf) other (.ret (found, held)) →
        Arrive line 0 (outcomes other) → other = now ∧ found = retv := by
  obtain ⟨now, retv, kept, transmits, arrive⟩ := call_along line data pktBuf
  obtain ⟨starts, sendings, ends, same, disciplined⟩ := transmits.disciplined
  have run := (runs_transmitPackage _ _ _ _ _).mpr transmits
  refine ⟨now, retv, kept, starts, sendings, ends, run, arrive, same, disciplined, ?_⟩
  intro other found held again arrived
  obtain ⟨more, rest, joined⟩ := arrived.comparable arrive
  obtain ⟨equal, value⟩ := same_history again run joined
  exact ⟨equal, congrArg Prod.fst value⟩

section Count

variable {starts ends : List (Option UInt8)} {answers : List (List (Option UInt8))}

theorem blocks_answered {data : List UInt8} (blocks : answers.length = blockCount data)
    (acked : ∀ block ∈ answers, Answered ack maxRetransmit block true) (pktBuf : XmodemPacket) (pktNo : UInt8) :
    ∃ history kept, SendsBlocks pktBuf data pktNo history (some (pktNo + UInt8.ofNat answers.length)) kept ∧
      outcomes history = answers.flatten := by
  induction answers generalizing data pktBuf pktNo with
  | nil =>
    obtain rfl : data = [] := by
      apply List.eq_nil_of_length_eq_zero
      simp only [List.length_nil, blockCount, packetPayloadSize] at blocks
      omega
    exact ⟨[], pktBuf, by simpa using SendsBlocks.done, rfl⟩
  | cons block answers ih =>
    have more : data ≠ [] := by
      intro empty
      rw [empty] at blocks
      simp [blockCount, packetPayloadSize] at blocks
    have fewer : answers.length = blockCount (data.drop packetPayloadSize) := by
      have positive := List.length_pos_of_ne_nil more
      simp only [List.length_cons, blockCount, List.length_drop, packetPayloadSize] at blocks ⊢
      omega
    obtain ⟨answered, others⟩ := List.forall_mem_cons.mp acked
    obtain ⟨history, kept, sends, heard⟩ := ih fewer others (pktBuf.fill (data.take packetPayloadSize) pktNo) (pktNo + 1)
    have number : pktNo + 1 + UInt8.ofNat answers.length = pktNo + UInt8.ofNat (answers.length + 1) := by
      rw [UInt8.ofNat_add, UInt8.add_assoc, UInt8.add_comm 1]
      rfl
    rw [number] at sends
    exact ⟨_, kept, .sent more answered sends, by rw [outcomes_append, outcomes_copies, heard, List.flatten_cons]⟩

theorem acknowledged_call {data : List UInt8} (started : Answered charC maxRetransmit starts true)
    (blocks : answers.length = blockCount data) (acked : ∀ block ∈ answers, Answered ack maxRetransmit block true)
    (ended : Answered ack maxRetransmit ends true) (pktBuf : XmodemPacket) :
    ∃ now kept, Transmits pktBuf data now (((1 + UInt8.ofNat (blockCount data)).toNat - 1) * 128) kept ∧
      outcomes now = starts ++ answers.flatten ++ ends := by
  obtain ⟨history, kept, sends, heard⟩ := blocks_answered blocks acked pktBuf 1
  rw [blocks] at sends
  exact ⟨_, kept, .finished started sends ended, by simp [heard]⟩

theorem counted_iff (data : List UInt8) :
    (((1 + UInt8.ofNat (blockCount data)).toNat : Int) - 1) * 128 = packetPayloadSize * blockCount data ∧
      0 ≤ (((1 + UInt8.ofNat (blockCount data)).toNat : Int) - 1) * 128 ↔ data.length ≤ 32512 := by
  rw [UInt8.toNat_add, UInt8.toNat_ofNat', UInt8.toNat_ofNat]
  simp only [blockCount, packetPayloadSize]
  omega

/-- The count returned for a message of which everything is acknowledged is the number of bytes
in its frames exactly when the packet counter has not come round to 0. -/
theorem transmitted_count_iff {data : List UInt8} (pktBuf : XmodemPacket) (started : Answered charC maxRetransmit starts true)
    (blocks : answers.length = blockCount data) (acked : ∀ block ∈ answers, Answered ack maxRetransmit block true)
    (ended : Answered ack maxRetransmit ends true) :
    ∃ now retv kept, Runs ((xmodemTransmitPackage data).run pktBuf) now (.ret (retv, kept)) ∧
      outcomes now = starts ++ answers.flatten ++ ends ∧
      (∀ other found held, Runs ((xmodemTransmitPackage data).run pktBuf) other (.ret (found, held)) →
        outcomes other = outcomes now → found = retv) ∧
      (retv = packetPayloadSize * blockCount data ∧ 0 ≤ retv ↔ data.length ≤ 32512) := by
  obtain ⟨now, kept, transmits, heard⟩ := acknowledged_call started blocks acked ended pktBuf
  have run := (runs_transmitPackage _ _ _ _ _).mpr transmits
  refine ⟨now, _, kept, run, heard, ?_, counted_iff data⟩
  intro other found held again same
  have joined : outcomes other ++ [] = outcomes now ++ [] := by rw [same]
  exact congrArg Prod.fst (same_history again run joined).2

theorem one_block_counted : ∃ now kept,
    Runs ((xmodemTransmitPackage [7]).run .blank) now (.ret (128, kept)) := by
  have start : Answered charC maxRetransmit [some charC] true := .heard
  have acks : Answered ack maxRetransmit [some ack] true := .heard
  obtain ⟨now, retv, kept, run, _, _, counted⟩ :=
    @transmitted_count_iff _ _ [[some ack]] [7] .blank start rfl (by simpa using acks) acks
  obtain ⟨rfl, _⟩ := counted.mpr (by decide)
  exact ⟨now, kept, run⟩

/-- Everything is acknowledged, and the value returned is negative. -/
theorem transmitted_count_wraps : ∃ now kept,
    Runs ((xmodemTransmitPackage (List.replicate 32640 0)).run .blank) now (.ret (-128, kept)) ∧
      outcomes now = some charC :: List.replicate 256 (some ack) := by
  have start : Answered charC maxRetransmit [some charC] true := .heard
  have acks : Answered ack maxRetransmit [some ack] true := .heard
  have count : blockCount (List.replicate 32640 (0 : UInt8)) = 255 := by
    rw [blockCount, List.length_replicate]
    rfl
  obtain ⟨now, kept, transmits, heard⟩ := @acknowledged_call _ _ (List.replicate 255 [some ack]) (List.replicate 32640 0) start
    (by rw [count, List.length_replicate]) (by intro block member; rwa [List.eq_of_mem_replicate member]) acks .blank
  rw [count] at transmits
  refine ⟨now, kept, (runs_transmitPackage _ _ _ _ _).mpr transmits, ?_⟩
  rw [heard, List.flatten_replicate_singleton, List.append_assoc, ← List.replicate_succ']
  rfl

end Count

end DfuUtilQda.Xmodem

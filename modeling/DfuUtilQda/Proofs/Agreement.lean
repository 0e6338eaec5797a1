import DfuUtilQda.Proofs.CableRuns

/-! Agreement of the two ends of a cable. Both calls are known from their own
histories alone; the lines only relate what one has said to what the other has heard. -/

namespace DfuUtilQda.Xmodem
open Interaction Machine

variable {α β : Type}

/-- A line between one end that has said and another that has heard all this. -/
structure Line.Joins (line : Line) (law : List UInt8 → List UInt8 → Prop) (sender reader : History Io) : Prop where
  sent : line.sent = emitted sender
  lawful : law line.sent line.carried
  taken : line.taken = heardBytes reader
  waiting : line.taken <+: line.carried

theorem Acts.joins {law other : List UInt8 → List UInt8 → Prop} {history : History Io} {out into out' into' : Line}
    {mine theirs : History Io} (acts : Acts law history out into out' into')
    (sending : out.Joins law mine theirs) (reading : into.Joins other theirs mine) :
    out'.Joins law (mine ++ history) theirs ∧ into'.Joins other theirs (mine ++ history) := by
  induction acts generalizing mine with
  | nil => simpa using ⟨sending, reading⟩
  | puts ch through atMost lawful _ ih =>
    refine List.append_cons mine _ _ ▸ ih ⟨by simp [sending.sent], lawful, sending.taken, ?_⟩
      ⟨reading.sent, reading.lawful, ?_, reading.waiting⟩
    · exact sending.waiting.trans (List.prefix_append _ _)
    · simpa [heardBytes] using reading.taken
  | reads ch waiting _ ih =>
    refine List.append_cons mine _ _ ▸ ih ⟨?_, sending.lawful, sending.taken, sending.waiting⟩
      ⟨reading.sent, reading.lawful, ?_, waiting⟩
    · simpa using sending.sent
    · simp [heardBytes, reading.taken]
  | timesOut _ ih | sets ms _ ih =>
    refine List.append_cons mine _ _ ▸ ih ⟨?_, sending.lawful, sending.taken, sending.waiting⟩
      ⟨reading.sent, reading.lawful, ?_, reading.waiting⟩
    · simpa using sending.sent
    · simpa [heardBytes] using reading.taken

theorem carriesUnits_nil : CarriesUnits [] [] :=
  ⟨[], by simp, [eot], [eot], 0, .kept (Or.inr ⟨eot, by decide, rfl⟩), rfl, rfl⟩

/-- The cable at any moment: both programs have run, each with its own history, and the lines join them. -/
theorem Cable.Reaches.histories {transmitter : Program Io α} {receiver : Program Io β} {cable : Cable α β}
    (reaches : Cable.Reaches (.start transmitter receiver) cable) :
    ∃ sends receives, Runs transmitter sends cable.transmitter ∧ Runs receiver receives cable.receiver ∧
      cable.forth.Joins CarriesUnits sends receives ∧ cable.back.Joins CarriesBytes receives sends := by
  induction reaches with
  | refl =>
    exact ⟨[], [], .here _, .here _, ⟨rfl, carriesUnits_nil, rfl, List.prefix_rfl⟩, ⟨rfl, List.Sublist.refl _, rfl, List.prefix_rfl⟩⟩
  | tail _ step ih =>
    obtain ⟨sends, receives, transmitted, received, forth, back⟩ := ih
    cases step with
    | transmitter run acts =>
      obtain ⟨forth, back⟩ := acts.joins forth back
      exact ⟨_, receives, transmitted.trans run, received, forth, back⟩
    | receiver run acts =>
      obtain ⟨back, forth⟩ := acts.joins back forth
      exact ⟨sends, _, transmitted, received.trans run, forth, back⟩

section Units

/-- The first byte of a unit says how long it is. -/
theorem IsUnit.shape {unit : List UInt8} (whole : IsUnit unit) :
    ∃ ch rest, unit = ch :: rest ∧ rest.length = if ch = soh then 132 else 0 := by
  rcases whole with ⟨⟨⟨bytes, size⟩, marked⟩, rfl⟩ | ⟨ch, control, rfl⟩
  · cases unit with
    | nil => cases size
    | cons ch rest =>
      obtain rfl : ch = soh := by simpa using marked
      exact ⟨soh, rest, rfl, by simpa using size⟩
  · exact ⟨ch, [], rfl, by simp [control]⟩

theorem IsUnit.nonempty {unit : List UInt8} (whole : IsUnit unit) : unit ≠ [] := by
  obtain ⟨ch, rest, rfl, _⟩ := whole.shape
  simp

/-- No unit is a proper prefix of another. -/
theorem IsUnit.same {unit other rest more : List UInt8} (one : IsUnit unit) (two : IsUnit other)
    (same : unit ++ rest = other ++ more) : unit = other := by
  obtain ⟨ch, bytes, rfl, length⟩ := one.shape
  obtain ⟨ch', bytes', rfl, length'⟩ := two.shape
  obtain rfl : ch = ch' := (List.cons_eq_cons.mp same).1
  exact (List.append_inj same (by simp [length, length'])).1

theorem Befalls.whole {unit fate : List UInt8} (befalls : Befalls unit fate) : fate = [] ∨ IsUnit fate := by
  cases befalls with
  | kept whole => exact Or.inr whole
  | dropped => exact Or.inl rfl
  | damaged _ other => exact Or.inr (Or.inl ⟨other, rfl⟩)

/-- A unit found after whole units in a stream of units is one of them. The stream
may end in the middle of a last one. -/
theorem unit_member {before units : List (List UInt8)} {unit last rest : List UInt8} {count : Nat}
    (earlier : ∀ unit ∈ before, IsUnit unit) (stream : ∀ unit ∈ units, unit = [] ∨ IsUnit unit) (whole : IsUnit unit)
    (ending : last = [] ∨ IsUnit last) (same : before.flatten ++ (unit ++ rest) = units.flatten ++ last.take count) :
    unit ∈ units ∨ unit = last ∧ last.take count = last := by
  induction units generalizing before with
  | nil =>
    rcases ending with rfl | ending
    · simp [whole.nonempty] at same
    · have all : before.flatten ++ (unit ++ rest) ++ last.drop count = last ++ [] := by
        rw [same]
        simp
      have size := congrArg List.length all
      cases before with
      | nil =>
        obtain rfl := whole.same ending (by simpa only [List.flatten_nil, List.nil_append, List.append_assoc] using all)
        refine Or.inr ⟨rfl, List.take_of_length_le ?_⟩
        simp at size
        omega
      | cons head before =>
        obtain rfl := (earlier head (by simp)).same ending (by simpa only [List.flatten_cons, List.append_assoc] using all)
        have positive := List.length_pos_of_ne_nil whole.nonempty
        simp only [List.flatten_cons, List.append_nil, List.length_append] at size
        omega
  | cons first units ih =>
    have later := List.forall_mem_cons.mp stream
    rcases later.1 with rfl | first_
    · rcases ih earlier later.2 (by simpa using same) with member | found
      · exact Or.inl (List.mem_cons_of_mem _ member)
      · exact Or.inr found
    · cases before with
      | nil => exact Or.inl (by simp [whole.same first_ (by simpa using same)])
      | cons head before =>
        have others := List.forall_mem_cons.mp earlier
        simp only [List.flatten_cons, List.append_assoc] at same
        obtain rfl := others.1.same first_ same
        rcases ih others.2 later.2 (List.append_cancel_left same) with member | found
        · exact Or.inl (List.mem_cons_of_mem _ member)
        · exact Or.inr found

theorem Befalls.unit {unit fate : List UInt8} (befalls : Befalls unit fate) : IsUnit unit := by
  cases befalls with
  | kept whole | dropped whole => exact whole
  | damaged frame => exact Or.inl ⟨frame, rfl⟩

theorem Befalls.intact {unit : List UInt8} {frame : Frame} (befalls : Befalls unit frame.bytes) (intact : frame.intact = true) :
    unit = frame.bytes := by
  generalize same : frame.bytes = fate at befalls
  cases befalls with
  | kept => rfl
  | dropped =>
    have size := frame.size
    simp [same] at size
  | damaged _ other broken =>
    obtain ⟨⟨bytes, size⟩, marked⟩ := frame
    subst same
    exact absurd intact (by simpa using broken)

theorem CarriesUnits.frame_sent {sent carried post : List UInt8} {units before : List (List UInt8)} {frame : Frame}
    (carries : CarriesUnits sent carried) (stream : ∀ unit ∈ units, IsUnit unit) (same : sent = units.flatten)
    (earlier : ∀ unit ∈ before, IsUnit unit) (found : carried = before.flatten ++ (frame.bytes ++ post))
    (intact : frame.intact = true) : frame.bytes ∈ units := by
  obtain ⟨done, befell, unit, fate, count, last, sent_, carried_⟩ := carries
  have frame_ : IsUnit frame.bytes := Or.inl ⟨frame, rfl⟩
  have fates : ∀ fate ∈ done.map Prod.snd, fate = [] ∨ IsUnit fate := by
    intro fate member
    obtain ⟨pair, inside, rfl⟩ := List.mem_map.mp member
    exact (befell pair inside).whole
  have sentUnits (front : List (List UInt8 × List UInt8)) (all : ∀ pair ∈ front, Befalls pair.1 pair.2) :
      ∀ unit ∈ front.map Prod.fst, IsUnit unit := by
    intro unit member
    obtain ⟨pair, inside, rfl⟩ := List.mem_map.mp member
    exact (all pair inside).unit
  have sentAt (front : List (List UInt8 × List UInt8)) (rest : List UInt8) (all : ∀ pair ∈ front, Befalls pair.1 pair.2)
      (place : sent = (front.map Prod.fst).flatten ++ (frame.bytes ++ rest)) : frame.bytes ∈ units := by
    have whole : (front.map Prod.fst).flatten ++ (frame.bytes ++ rest) = units.flatten ++ [].take 0 := by
      rw [← place, same]
      simp
    rcases unit_member (sentUnits front all) (fun unit member => Or.inr (stream unit member)) frame_ (Or.inl rfl) whole with
      member | ⟨impossible, _⟩
    · exact member
    · exact absurd impossible frame_.nonempty
  rcases unit_member earlier fates frame_ last.whole (by rw [← found, carried_, List.flatMap_def]) with member | ⟨rfl, reached⟩
  · obtain ⟨⟨unit', _⟩, inside, rfl⟩ := List.mem_map.mp member
    obtain ⟨front, behind, rfl⟩ := List.append_of_mem inside
    obtain rfl := (befell _ inside).intact intact
    refine sentAt front (behind.flatMap Prod.fst ++ unit.take count) (fun pair inside => befell pair (by simp [inside])) ?_
    rw [sent_]
    simp [List.flatMap_def]
  · obtain rfl := last.intact intact
    refine sentAt done [] befell ?_
    rw [sent_, reached, List.flatMap_def, List.append_nil]

end Units

section Transmitter

/-- The units a transmitter can put on the line. -/
def IsSent (data unit : List UInt8) : Prop := unit = [eot] ∨ ∃ index frame, IsBlock data index frame ∧ unit = frame.bytes

theorem IsSent.whole {data unit : List UInt8} (sent : IsSent data unit) : IsUnit unit := by
  rcases sent with rfl | ⟨_, frame, _, rfl⟩
  · exact Or.inr ⟨eot, by decide, rfl⟩
  · exact Or.inl ⟨frame, rfl⟩

/-- A history that sends only such units, and has been told ACK at least so many times. -/
structure Speaks (data : List UInt8) (acks : Nat) (history : History Io) : Prop where
  units : ∃ units : List (List UInt8), emitted history = units.flatten ∧ ∀ unit ∈ units, IsSent data unit
  acked : acks ≤ (heardBytes history).count ack

theorem Speaks.append {data : List UInt8} {acks more : Nat} {history later : History Io}
    (first : Speaks data acks history) (second : Speaks data more later) : Speaks data (acks + more) (history ++ later) := by
  obtain ⟨⟨units, said, sent⟩, acked⟩ := first
  obtain ⟨⟨units', said', sent'⟩, acked'⟩ := second
  refine ⟨⟨units ++ units', by simp [said, said'], ?_⟩, ?_⟩
  · intro unit member
    exact (List.mem_append.mp member).elim (sent unit) (sent' unit)
  · rw [heardBytes, outcomes_append, List.filterMap_append, List.count_append]
    exact Nat.add_le_add acked acked'

private theorem speaks_copies {data unit : List UInt8} (sent : IsSent data unit) {tries : Nat} {answers : List (Option UInt8)}
    (answered : Answered ack tries answers true) : Speaks data 1 (copies unit answers) := by
  generalize acked : true = ok at answered
  induction answered with
  | spent => cases acked
  | heard => exact ⟨⟨[unit], by simp [copies], by simpa using sent⟩, by simp [copies, heardBytes]⟩
  | @other tries answer answers ok different later ih =>
    obtain ⟨⟨units, said, all⟩, count⟩ := ih acked
    refine ⟨⟨unit :: units, ?_, List.forall_mem_cons.mpr ⟨sent, all⟩⟩, ?_⟩
    · rw [copies, List.flatMap_cons, ← copies]
      simp [said]
    · rw [copies, List.flatMap_cons, ← copies, heardBytes, outcomes_append, List.filterMap_append, List.count_append]
      exact Nat.le_add_left_of_le count

private theorem speaks_blocks {data rest : List UInt8} {pktBuf kept : XmodemPacket} {index : Nat} {history : History Io}
    {pktNo last : UInt8} (sends : SendsBlocks pktBuf rest pktNo history (some last) kept)
    (place : rest = data.drop (packetPayloadSize * index)) (number : pktNo = UInt8.ofNat (index + 1)) :
    Speaks data (blockCount data - index) history := by
  generalize found : some last = result at sends
  induction sends generalizing index with
  | done =>
    have passed : blockCount data - index = 0 := by
      have length := congrArg List.length place
      simp only [List.length_nil, List.length_drop, blockCount, packetPayloadSize] at length ⊢
      omega
    rw [passed]
    exact ⟨⟨[], rfl, by simp⟩, Nat.zero_le _⟩
  | failed => cases found
  | @sent pktBuf kept rest pktNo answers later result more acked _ ih =>
    have short : (rest.take packetPayloadSize).length ≤ 128 := List.length_take_le _ _
    have within : index < blockCount data := by
      have positive := List.length_pos_of_ne_nil more
      rw [place] at positive
      simp only [List.length_drop, blockCount, packetPayloadSize] at positive ⊢
      omega
    let frame : Frame := ⟨pktBuf.fill (rest.take packetPayloadSize) pktNo, pktBuf.fill_marked _ _ short⟩
    have block : IsBlock data index frame := by
      refine ⟨within, (pktBuf.fill_seqNo _ _ short).trans number, ?_⟩
      rw [← place]
      exact pktBuf.fill_block rest pktNo
    have rest_ := @ih (index + 1) (by rw [place, List.drop_drop]; rfl) (by rw [number]; simp) found
    have one := speaks_copies (Or.inr ⟨index, frame, block, rfl⟩) acked
    have total : blockCount data - index = 1 + (blockCount data - (index + 1)) := by omega
    rw [total]
    exact one.append rest_

private theorem speaks_transmission {data : List UInt8} {pktBuf kept : XmodemPacket} {history : History Io} {retv : Int}
    (transmits : Transmits pktBuf data history retv kept) (success : 0 ≤ retv) : Speaks data (blockCount data + 1) history := by
  cases transmits with
  | unstarted | broken => simp at success
  | @finished starts answers blocks _ pktNo ok started sent ended =>
    cases ok with
    | false => simp at success
    | true =>
      have opening : Speaks data 0 (⟨.setTimeout timeoutStd, ()⟩ :: starts.map hears) :=
        ⟨⟨[], by simp, by simp⟩, Nat.zero_le _⟩
      have middle := @speaks_blocks data data pktBuf kept 0 blocks 1 pktNo sent (by simp) rfl
      have closing := @speaks_copies data [eot] (Or.inl rfl) _ _ ended
      simpa using (opening.append middle).append closing

end Transmitter

section Receiver

variable {room : Nat} {readings : List Reading} {taken : List Frame}

/-- The bytes of an accepted frame stand together in what was heard. -/
private theorem heard_frame (session : Session room readings taken) {frame : Frame} (member : frame ∈ taken) :
    ∃ before after, (readings.flatMap Reading.heard).filterMap id = before ++ (frame.bytes ++ after) := by
  induction session with
  | opened => simp at member
  | @read readings taken heard status new earlier open_ patient next ih =>
    rcases List.mem_append.mp member with old | added
    · obtain ⟨before, after, same⟩ := ih old
      refine ⟨before, after ++ heard.filterMap id, ?_⟩
      rw [List.flatMap_append, List.filterMap_append, same, List.flatMap_singleton]
      simp only [List.append_assoc]
    · cases next with
      | taken found =>
        obtain rfl := List.mem_singleton.mp added
        exact ⟨(readings.flatMap Reading.heard).filterMap id, [], by simp⟩
      | _ => simp at added

private theorem acks_given (session : Session room readings taken) :
    taken.length ≤ (readings.map Reading.reply).count ack := by
  induction session with
  | opened => exact Nat.le_refl 0
  | @read readings taken heard status new earlier open_ patient next ih =>
    rw [List.map_append, List.count_append, List.length_append]
    cases next with
    | taken frame => simpa [replyTo] using ih
    | _ => exact Nat.le_trans ih (Nat.le_add_right _ _)

private theorem acks_ended (session : Session room readings taken) (ended : EndsOnEot readings) :
    taken.length + 1 ≤ (readings.map Reading.reply).count ack := by
  cases session with
  | opened => simp [EndsOnEot] at ended
  | @read readings taken heard status new earlier open_ patient next =>
    obtain rfl : status = .eot := (endsOnEot_snoc readings _).mp ended
    obtain rfl := next.taken_nil (by simp)
    simpa [replyTo] using acks_given earlier

/-- Blocks accepted in order are the beginning of the message, up to the padding of its last one. -/
theorem payloads_blocks {rest : List UInt8} {taken : List Frame}
    (blocks : ∀ (index : Nat) frame, taken[index]? = some frame →
      frame.data.take (rest.drop (packetPayloadSize * index)).length =
        (rest.drop (packetPayloadSize * index)).take packetPayloadSize) :
    (payloads taken).take rest.length = rest.take (packetPayloadSize * taken.length) := by
  induction taken generalizing rest with
  | nil => simp [payloads]
  | cons frame taken ih =>
    have first := blocks 0 frame rfl
    have later := @ih (rest.drop packetPayloadSize) (by
      intro index frame found
      have next := blocks (index + 1) frame found
      rwa [Nat.mul_succ, Nat.add_comm, ← List.drop_drop] at next)
    have length : frame.data.length = packetPayloadSize := frame.data_length
    rw [Nat.mul_zero, List.drop_zero] at first
    rw [payloads, List.flatMap_cons, List.take_append, first, length, ← List.length_drop, ← payloads, later,
      List.length_cons, Nat.mul_succ, Nat.add_comm, List.take_add]

end Receiver

/-- No undamaged frame can be read off the carried bytes except where a unit begins. -/
def Unambiguous (carried : List UInt8) : Prop :=
  ∀ before (frame : Frame) after, carried = before ++ (frame.bytes ++ after) → frame.intact = true →
    ∃ units : List (List UInt8), (∀ unit ∈ units, IsUnit unit) ∧ before = units.flatten

private theorem accepted_block {data : List UInt8} {room acks : Nat} {sends receives : History Io} {line : Line}
    {readings : List Reading} {taken : List Frame} {frame : Frame}
    (joins : line.Joins CarriesUnits sends receives) (clear : Unambiguous line.carried) (speaks : Speaks data acks sends)
    (session : Session room readings taken) (heard : outcomes receives = readings.flatMap Reading.heard)
    (member : frame ∈ taken) (intact : frame.intact = true) : ∃ index, IsBlock data index frame := by
  obtain ⟨units, said, all⟩ := speaks.units
  obtain ⟨before, after, place⟩ := heard_frame session member
  obtain ⟨more, carried⟩ := joins.waiting
  have found : line.carried = before ++ (frame.bytes ++ (after ++ more)) := by
    rw [← carried, joins.taken, heardBytes, heard, place]
    simp only [List.append_assoc]
  obtain ⟨boundary, whole, rfl⟩ := clear before frame _ found intact
  have sent := joins.lawful.frame_sent (fun unit member => (all unit member).whole) (joins.sent.trans said) whole found intact
  rcases all _ sent with single | ⟨index, other, block, same⟩
  · have size := frame.size
    simp [single] at size
  · exact ⟨index, Frame.ext_bytes same ▸ block⟩

/-- Both ends succeed over a cable. The receiver has a beginning of the message in whole blocks, each
once and unaltered. It has acknowledged `duplicates` copies besides, and at most so many
blocks are missing at the end: none, where there were no duplicates. -/
theorem agreement_up_to_duplicates (data buf : List UInt8) (short : data.length ≤ 8192) (pktBuf held : XmodemPacket)
    {sent received : Int} {after : List UInt8} {kept stored : XmodemPacket} {forth back : Line}
    (reaches : Cable.Reaches (.start ((xmodemTransmitPackage data).run pktBuf) ((xmodemReceivePackage buf).run held))
      ⟨.ret (sent, kept), .ret ((received, after), stored), forth, back⟩)
    (acknowledged : 0 ≤ sent) (success : 0 ≤ received) (clear : Unambiguous forth.carried) :
    ∃ blocks duplicates : Nat, received = packetPayloadSize * blocks ∧ back.sent.count ack = blocks + duplicates + 1 ∧
      blocks ≤ blockCount data ∧ blockCount data ≤ blocks + duplicates ∧
      (after.take (packetPayloadSize * blocks)).take data.length = data.take (packetPayloadSize * blocks) ∧
      (duplicates = 0 → received = packetPayloadSize * blockCount data ∧ after.take data.length = data) := by
  obtain ⟨sends, receives, transmitted, arrived, forth_, back_⟩ := reaches.histories
  have speaks := speaks_transmission ((runs_transmitPackage _ _ _ _ _).mp transmitted) acknowledged
  obtain ⟨readings, taken, ended⟩ := (xmodemReceivePackage_spec buf held).returns arrived
  have few : blockCount data ≤ 64 := by
    simp only [blockCount, packetPayloadSize]
    omega
  have finished : EndsOnEot readings := by
    by_contra other
    have failed : received = -1 := ended.failure other
    omega
  have block (index : Nat) (frame : Frame) (found : taken[index]? = some frame) :
      ∃ place, IsBlock data place frame ∧ UInt8.ofNat (place + 1) = UInt8.ofNat (index + 1) := by
    obtain ⟨number, intact⟩ := ended.session.numbers index frame found
    obtain ⟨place, is⟩ := accepted_block forth_ clear speaks ended.session ended.heard (List.mem_of_getElem? found) intact
    exact ⟨place, is, is.number.symm.trans number⟩
  have fits : taken.length ≤ blockCount data := by
    by_contra more
    obtain ⟨place, is, same⟩ := block (blockCount data) _ (List.getElem?_eq_getElem (by omega))
    have bound := is.exists_
    have numbers := congrArg UInt8.toNat same
    simp at numbers
    omega
  have payload (index : Nat) (frame : Frame) (found : taken[index]? = some frame) : IsBlock data index frame := by
    obtain ⟨place, is, same⟩ := block index frame found
    have bound := is.exists_
    have inside := (List.getElem?_eq_some_iff.mp found).1
    have numbers := congrArg UInt8.toNat same
    simp at numbers
    obtain rfl : place = index := by omega
    exact is
  have told : blockCount data + 1 ≤ back.sent.count ack := by
    calc blockCount data + 1 ≤ (heardBytes sends).count ack := speaks.acked
      _ = back.taken.count ack := by rw [back_.taken]
      _ ≤ back.carried.count ack := back_.waiting.sublist.count_le ack
      _ ≤ back.sent.count ack := List.Sublist.count_le ack back_.lawful
  have given : taken.length + 1 ≤ back.sent.count ack := by
    have replies := acks_ended ended.session finished
    rw [back_.sent, ended.said]
    exact Nat.le_trans replies (List.count_le_count_cons)
  have length := payloads_length taken
  have message := payloads_blocks fun index frame found => (payload index frame found).payload
  have count : received = packetPayloadSize * taken.length := by
    have exact_ : received = toInt (packetPayloadSize * taken.length) := ended.success finished
    rw [exact_]
    simp only [packetPayloadSize]
    exact toInt_of_range (by omega) (by omega)
  refine ⟨taken.length, back.sent.count ack - (taken.length + 1), count, by omega, fits, by omega, ?_, ?_⟩
  · have stored : after = contents buf taken := ended.stored
    rw [stored, contents, ← length, List.take_left, message, length]
  · intro none
    have all : taken.length = blockCount data := by omega
    have stored : after = contents buf taken := ended.stored
    have enough : data.length ≤ packetPayloadSize * taken.length := by
      rw [all]
      simp only [blockCount, packetPayloadSize]
      omega
    refine ⟨all ▸ count, ?_⟩
    rw [stored, contents, List.take_append_of_le_length (by omega), message, List.take_of_length_le enough]

/-- A frame is taken, and its repetition acknowledged. -/
theorem duplicate_session {room : Nat} {frame : Frame} (fits : packetPayloadSize ≤ room) (intact : frame.intact = true)
    (number : frame.seqNo = 1) :
    Session room [⟨frame.bytes.map some, .soh, ack⟩, ⟨frame.bytes.map some, .dup, ack⟩] [frame] := by
  have first : ReadsPkt 1 room (frame.bytes.map some) .soh [frame] :=
    .taken frame (XmodemPacket.verdict_soh.mpr ⟨intact, number, fits⟩)
  have again : frame.verdict 2 (room - packetPayloadSize) = .dup := XmodemPacket.verdict_dup intact (by rw [number]; rfl)
  have second : ReadsPkt 2 (room - packetPayloadSize) (frame.bytes.map some) .dup [] := by
    have refused : ReadsPkt 2 (room - packetPayloadSize) _ _ _ := .refused frame (by rw [again]; simp)
    rwa [again] at refused
  have fresh : Session room [] [] := .opened
  exact .read (.read fresh (by simp) (by decide) first) (by simp) (by simp [errorRun, maxRxErrors]) second

section Repeated

private def repeatedFrame : Frame := ⟨XmodemPacket.blank.fill [7] 1, XmodemPacket.fill_marked _ _ _ (by decide)⟩

/-- The first copy of a block is lost and so is the ACK of the second one, so that the third is acknowledged as a duplicate. -/
private theorem repeated_block_run : ∃ (kept : XmodemPacket) (after : List UInt8) (stored : XmodemPacket) (forth back : Line),
    Cable.Reaches (.start ((xmodemTransmitPackage [7]).run .blank) ((xmodemReceivePackage (List.replicate 128 0)).run .blank))
      ⟨.ret (128, kept), .ret ((128, after), stored), forth, back⟩ ∧
    forth.sent = repeatedFrame.bytes ++ (repeatedFrame.bytes ++ (repeatedFrame.bytes ++ [eot])) ∧
    forth.carried = repeatedFrame.bytes ++ (repeatedFrame.bytes ++ [eot]) ∧ back.sent = [charC, ack, ack, ack] := by
  let frame := repeatedFrame
  have few : [(7 : UInt8)].length ≤ 128 := by decide
  have intact : frame.intact = true := XmodemPacket.fill_intact _ _ _ few
  have number : frame.seqNo = 1 := XmodemPacket.fill_seqNo _ _ _ few
  -- The transmitter's call.
  have started : Answered charC maxRetransmit [some charC] true := .heard
  have retried : Answered ack maxRetransmit [none, none, some ack] true := .other (by simp) (.other (by simp) .heard)
  have acked : Answered ack maxRetransmit [some ack] true := .heard
  have blocks : SendsBlocks .blank [7] 1 (copies frame.bytes [none, none, some ack] ++ []) (some 2) frame.toXmodemPacket :=
    .sent (by simp) retried .done
  have sends := (runs_transmitPackage _ _ _ _ _).mpr (Transmits.finished started blocks acked)
  -- The receiver's call.
  have size : toSize (List.replicate 128 (0 : UInt8)).length = 128 := by
    rw [List.length_replicate]
    exact toSize_nat (by decide)
  have session := @duplicate_session (toSize (List.replicate 128 (0 : UInt8)).length) frame (by rw [size]; decide) intact number
  obtain ⟨dialogue, stored, dialogues, receives⟩ := session.call_occurs (by simp [Open]) (by simp [packetPayloadSize])
    (by simp [errorRun, maxRxErrors]) .blank
  have sound := (xmodemReceivePackage_spec _ .blank).safe receives (by rw [List.length_replicate]; decide)
  cases dialogues with
  | @cons _ _ heard later arrival silent dialogues =>
  cases dialogues with
  | @cons _ _ heard' later' arrival' silent' dialogues =>
  cases dialogues with
  | @cons _ _ last ended arrived quiet dialogues =>
  cases dialogues
  have bytes : heardBytes heard = frame.bytes := heardBytes_of arrival
  have bytes' : heardBytes heard' = frame.bytes := heardBytes_of arrival'
  have ending : heardBytes last = [eot] := @heardBytes_of _ [eot] arrived
  simp only [sound_cons, sound_append] at sound
  obtain ⟨_, _, ⟨safe, _⟩, ⟨safe', _⟩, ⟨safely, _⟩, _⟩ := sound
  have unit : Befalls frame.bytes frame.bytes := .kept (Or.inl ⟨frame, rfl⟩)
  have lost : Befalls frame.bytes [] := .dropped (Or.inl ⟨frame, rfl⟩)
  have eots : Befalls [eot] [eot] := .kept (Or.inr ⟨eot, by decide, rfl⟩)
  have reached : Cable.Reaches
    (.start ((xmodemTransmitPackage [7]).run .blank) ((xmodemReceivePackage (List.replicate 128 0)).run .blank))
    (.start ((xmodemTransmitPackage [7]).run .blank) ((xmodemReceivePackage (List.replicate 128 0)).run .blank)) := .refl
  have receives : Runs ((xmodemReceivePackage (List.replicate 128 0)).run .blank) ((⟨.setTimeout timeoutStd, ()⟩ :: puts [charC]) ++
      ((heard ++ puts [ack]) ++ ((heard' ++ puts [ack]) ++ (last ++ puts [ack]))))
      (.ret ((128, contents (List.replicate 128 0) [frame]), stored)) := by
    simpa [packetPayloadSize] using receives
  have sends : Runs ((xmodemTransmitPackage [7]).run .blank)
      ((⟨.setTimeout timeoutStd, ()⟩ :: (([hears (some charC)] ++ puts frame.bytes) ++ (hears none :: puts frame.bytes))) ++
        ((hears none :: puts frame.bytes) ++ (([hears (some ack)] ++ puts [eot]) ++ [hears (some ack)])))
      (.ret (128, frame.toXmodemPacket)) := by
    simpa [copies] using sends
  obtain ⟨r, reached, receives⟩ := reached.receives receives (.sets _ (acts_reply (List.Sublist.refl []) (Or.inl rfl)))
  obtain ⟨t, reached, sends⟩ := reached.transmits sends (.sets _ (Acts.append (@acts_next [] _ _ _ _ _ (by simp) (by simp) lost)
    (.timesOut (acts_unit (by simp [lost]) unit))))
  obtain ⟨r, reached, receives⟩ := reached.receives receives
    (acts_heard safe silent (by simp [Line.after, bytes]) (List.Sublist.refl _) (.inr rfl))
  obtain ⟨t, reached, sends⟩ := reached.transmits sends (.timesOut (acts_unit (by simp [lost, unit]) unit))
  obtain ⟨r, reached, receives⟩ := reached.receives receives
    (acts_heard safe' silent' (by simp [Line.after, bytes, bytes']) (by simp) (.inl rfl))
  obtain ⟨t, reached, sends⟩ := reached.transmits sends (acts_next (by simp) (by simp [lost, unit]) eots)
  have answered := reached.tail (.receiver receives
    (acts_heard safely quiet (by simp [Line.after, bytes, bytes', ending]) (by simp) (.inl rfl)))
  exact ⟨_, _, _, _, _, answered.tail (.transmitter sends (.reads ack (by simp) .nil)), by simp [Line.after, frame],
    by simp [Line.after, frame], rfl⟩

set_option maxRecDepth 20000 in
private theorem repeatedFrame_bytes : repeatedFrame.bytes = [1, 1, 0xFE, 7] ++ List.replicate 127 0 ++ [0xCD, 0x88] := by decide +kernel

/-- Where SOH stands in two copies of the frame, a number and its complement only follow at the beginning of one. -/
private theorem repeated_places : ∀ place < 135,
    (repeatedFrame.bytes ++ (repeatedFrame.bytes ++ [eot])).getD place 0 = soh →
    (repeatedFrame.bytes ++ (repeatedFrame.bytes ++ [eot])).getD (place + 1) 0 =
      ~~~(repeatedFrame.bytes ++ (repeatedFrame.bytes ++ [eot])).getD (place + 2) 0 → place = 0 ∨ place = 133 := by
  rw [repeatedFrame_bytes]
  decide +kernel

private theorem repeated_clear : Unambiguous (repeatedFrame.bytes ++ (repeatedFrame.bytes ++ [eot])) := by
  intro before other rest same genuine
  have lengths := congrArg List.length same
  simp only [List.length_append, repeatedFrame.size, other.size, List.length_singleton] at lengths
  have found (index : Nat) (inside : index < 133) :
      (repeatedFrame.bytes ++ (repeatedFrame.bytes ++ [eot])).getD (before.length + index) 0 = other.bytes.getD index 0 := by
    rw [same, List.getD_eq_getElem?_getD, List.getElem?_append_right (by omega), Nat.add_sub_cancel_left,
      List.getElem?_append_left (by rw [other.size]; exact inside), List.getD_eq_getElem?_getD]
  have marked : other.bytes.getD 0 0 = soh := by
    rw [List.getD_eq_getElem?_getD, ← List.head?_eq_getElem?, other.marked]
    rfl
  have mirrored : other.bytes.getD 1 0 = ~~~other.bytes.getD 2 0 := XmodemPacket.intact_seqNo genuine
  rw [← found 0 (by decide)] at marked
  rw [← found 1 (by decide), ← found 2 (by decide)] at mirrored
  obtain first | second := repeated_places before.length (by omega) marked mirrored
  · exact ⟨[], by simp, List.eq_nil_of_length_eq_zero first⟩
  · have unit : IsUnit repeatedFrame.bytes := .inl ⟨repeatedFrame, rfl⟩
    have whole : before = repeatedFrame.bytes := (List.append_inj same (by rw [repeatedFrame.size, second])).1.symm
    exact ⟨[repeatedFrame.bytes], by simpa using unit, by simpa using whole⟩

/-- A block arrives although its first copy is lost and it is acknowledged twice. -/
theorem single_block_agreed : ∃ kept after stored forth back,
    Cable.Reaches (.start ((xmodemTransmitPackage [7]).run .blank) ((xmodemReceivePackage (List.replicate 128 0)).run .blank))
      ⟨.ret (128, kept), .ret ((128, after), stored), forth, back⟩ ∧
    forth.carried.length < forth.sent.length ∧ back.sent = [charC, ack, ack, ack] ∧ after.take 1 = [7] := by
  obtain ⟨kept, after, stored, forth, back, run, sent, carried, replies⟩ := repeated_block_run
  have clear : Unambiguous forth.carried := carried ▸ repeated_clear
  obtain ⟨blocks, duplicates, count, acks, _, _, begins, _⟩ :=
    agreement_up_to_duplicates [7] (List.replicate 128 0) (by decide) .blank .blank run (by decide) (by decide) clear
  obtain rfl : blocks = 1 := by
    simp only [packetPayloadSize] at count
    omega
  refine ⟨kept, after, stored, forth, back, run, ?_, replies, ?_⟩
  · simp [sent, carried, repeatedFrame.size]
  · simpa [packetPayloadSize, List.take_take] using begins

end Repeated

end DfuUtilQda.Xmodem

import DfuUtilQda.Proofs.ReceptionParse
import DfuUtilQda.Proofs.Transmission

/-! Lost bytes and repeated frames, met anywhere in a reception. Where a number has the
value of a control byte, or nothing precedes it, they are not what they seem. -/

namespace DfuUtilQda.Xmodem
open Interaction Machine

/-- A block without contents of its own, as the transmitter would number it. -/
def numbered (index : Nat) : Frame :=
  ⟨XmodemPacket.blank.fill [] (UInt8.ofNat index), XmodemPacket.fill_marked _ _ _ (by simp)⟩

theorem numbered_seqNo (index : Nat) : (numbered index).seqNo = UInt8.ofNat index :=
  XmodemPacket.fill_seqNo _ _ _ (by simp)

theorem numbered_intact (index : Nat) : (numbered index).intact = true := XmodemPacket.fill_intact _ _ _ (by simp)

def numberedBlocks (count : Nat) : List Frame := (List.range count).map fun index => numbered (index + 1)

theorem numberedBlocks_length (count : Nat) : (numberedBlocks count).length = count := by simp [numberedBlocks]

theorem numberedBlocks_succ (count : Nat) : numberedBlocks (count + 1) = numberedBlocks count ++ [numbered (count + 1)] := by
  simp [numberedBlocks, List.range_succ]

theorem numbered_session (count room : Nat) (fits : packetPayloadSize * count ≤ room) :
    ∃ readings, Session room readings (numberedBlocks count) ∧ Open readings ∧ errorRun readings = 0 := by
  induction count with
  | zero => exact ⟨[], .opened, by simp [Open], rfl⟩
  | succ count ih =>
    simp only [packetPayloadSize] at fits ih
    obtain ⟨readings, session, open_, calm⟩ := ih (by omega)
    have read : ReadsPkt (UInt8.ofNat (count + 1)) (room - packetPayloadSize * count)
        ((numbered (count + 1)).bytes.map some) .soh [numbered (count + 1)] := by
      apply ReadsPkt.taken
      apply XmodemPacket.verdict_soh.mpr
      exact ⟨numbered_intact _, numbered_seqNo _, by simp only [packetPayloadSize]; omega⟩
    rw [numberedBlocks_succ]
    obtain ⟨further, opened⟩ := session.extends open_ (by rw [calm]; decide) (by rwa [numberedBlocks_length]) (by simp)
    exact ⟨_, further, opened, by simp⟩

section Reached

variable {buf : List UInt8} {pktBuf held : XmodemPacket} {s : Reception} {now : History Io}

/-- After an error nothing has changed but the count, and the frame is asked for again. -/
def Reception.retry (s : Reception) : Reception := { s with errCnt := s.errCnt + 1, cmd := s.nak }

/-- Hearing `heard` makes the packet reader report an error and the receiver ask for the frame again. -/
def AsksAgain (s : Reception) (held : XmodemPacket) (heard : List (Option UInt8)) : Prop :=
  ∃ later kept, outcomes later = heard ∧
    Runs ((xmodemReadPkt s.expSeqNo s.buf s.dataCnt s.bufLen).run held) later (.ret ((.err, s.buf), kept)) ∧
    Runs ((receiveRound s).run held) (puts [s.cmd] ++ later) (.ret (.inl s.retry, kept)) ∧
    (s.retry.errCnt < maxRxErrors → ∃ rest, Runs ((receiveRound s.retry).run kept) (puts [s.nak]) rest) ∧
    (s.nak = charC ∨ s.nak = nak)

/-- Hearing `heard` is reported as a duplicate, acknowledged and otherwise without effect. -/
def Absorbs (s : Reception) (held : XmodemPacket) (heard : List (Option UInt8)) : Prop :=
  ∃ later kept, outcomes later = heard ∧
    Runs ((xmodemReadPkt s.expSeqNo s.buf s.dataCnt s.bufLen).run held) later (.ret ((.dup, s.buf), kept)) ∧
    Runs ((receiveRound s).run held) (puts [s.cmd] ++ later) (.ret (.inl { s with cmd := ack }, kept)) ∧
    ∃ rest, Runs ((receiveRound { s with cmd := ack }).run kept) (puts [ack]) rest

theorem receiveRound_says (s : Reception) (held : XmodemPacket) (patient : s.errCnt < maxRxErrors) :
    ∃ rest, Runs ((receiveRound s).run held) (puts [s.cmd]) rest := by
  rw [receiveRound, if_pos patient]
  exact ⟨_, .call (.here _)⟩

theorem ReadsPkt.occurs_untaken {expSeqNo : UInt8} {len : Nat} {heard : List (Option UInt8)} {status : Status}
    (read : ReadsPkt expSeqNo len heard status []) (other : status ≠ .soh) (buf : List UInt8) (offset : Int)
    (held : XmodemPacket) : ∃ later kept, outcomes later = heard ∧
      Runs ((xmodemReadPkt expSeqNo buf offset len).run held) later (.ret ((status, buf), kept)) := by
  obtain ⟨later, after, kept, run, arrival, _, store⟩ := @ReadsPkt.occurs _ _ _ _ _ read buf offset (fun same => absurd same other) held
  obtain ⟨_, rfl⟩ | ⟨_, impossible, _⟩ := store
  · exact ⟨later, kept, arrival, run⟩
  · cases impossible

theorem reads_once {expSeqNo : UInt8} {len : Nat} {heard more : List (Option UInt8)} {status verdict : Status}
    {buf after : List UInt8} {offset : Int} {later : History Io} {kept : XmodemPacket}
    (read : ReadsPkt expSeqNo len heard status []) (other : status ≠ .soh)
    (run : Runs ((xmodemReadPkt expSeqNo buf offset len).run held) later (.ret ((verdict, after), kept)))
    (arrival : outcomes later = heard ++ more) : verdict = status := by
  obtain ⟨first, _, same, early⟩ := read.occurs_untaken other buf offset held
  have equal := (same_history run early (show outcomes later ++ [] = outcomes first ++ more by simp [arrival, same])).2
  exact congrArg (fun result => result.1.1) equal

theorem AtHead.asks_again {readings : List Reading} {taken : List Frame} (head : AtHead buf readings taken s now)
    (patient : s.errCnt < maxRxErrors) {heard : List (Option UInt8)} (read : ReadsPkt s.expSeqNo s.bufLen heard .err []) :
    AsksAgain s held heard := by
  obtain ⟨later, kept, arrival, run⟩ := read.occurs_untaken (by simp) s.buf s.dataCnt held
  refine ⟨later, kept, arrival, run, receiveRound_occurs patient run, receiveRound_says s.retry kept, ?_⟩
  rw [head.nak, replyTo]
  by_cases fresh : taken.length = 0
  · exact .inl (if_pos fresh)
  · exact .inr (if_neg fresh)

theorem lost_byte_reading (frame : Frame) {position : Nat} (inside : position < 133)
    (harmless : position = 0 → frame.seqNo ≠ eot) (expSeqNo : UInt8) (len : Nat) :
    ReadsPkt expSeqNo len ((frame.bytes.eraseIdx position).map some ++ [none]) .err [] := by
  obtain ⟨⟨bytes, size⟩, marked⟩ := frame
  match bytes with
  | [] | [_] => simp at size
  | mark :: seqNo :: rest =>
    obtain rfl : mark = soh := by simpa using marked
    have length : rest.length = 131 := by simpa using size
    cases position with
    | zero =>
      -- The number stands where SOH was.
      have running : seqNo ≠ Xmodem.eot := harmless rfl
      by_cases marked : seqNo = soh
      · subst marked
        exact .short rest (by omega)
      · exact .noise seqNo rest marked running
    | succ position =>
      have cut : ((seqNo :: rest).eraseIdx position).length < 132 := by
        rw [List.length_eraseIdx_of_lt (by simp [length]; omega), List.length_cons]
        omega
      exact .short _ cut

theorem number_heard_as_eot (frame : Frame) (number : frame.seqNo = eot) :
    (frame.bytes.eraseIdx 0).map some = some eot :: (frame.bytes.drop 2).map some := by
  obtain ⟨⟨bytes, size⟩, marked⟩ := frame
  match bytes with
  | [] | [_] => simp at size
  | mark :: seqNo :: rest =>
    obtain rfl : seqNo = eot := number
    rfl

theorem lost_start_not_recovered (frame : Frame) (number : frame.seqNo = eot) :
    ¬AsksAgain s held ((frame.bytes.eraseIdx 0).map some ++ [none]) := by
  rintro ⟨later, kept, arrival, run, _⟩
  rw [number_heard_as_eot frame number] at arrival
  have heard : outcomes later = [some eot] ++ ((frame.bytes.drop 2).map some ++ [none]) := arrival
  have ended := reads_once (.eot : ReadsPkt s.expSeqNo s.bufLen _ _ _) (by simp) run heard
  cases ended

/-- At every point of a reception, the loss of one byte of a frame is made good by asking for
the frame again, unless it is the SOH of a frame whose number reads as EOT. -/
theorem lost_byte_recovered_iff (reached : Static.LoopHead receiveRound (Reception.start buf) pktBuf s held now)
    (patient : s.errCnt < maxRxErrors) (frame : Frame) {position : Nat} (inside : position < 133) :
    AsksAgain s held ((frame.bytes.eraseIdx position).map some ++ [none]) ↔ (position = 0 → frame.seqNo ≠ eot) := by
  obtain ⟨readings, taken, head⟩ := Reception.at_head reached
  constructor
  · intro asked first number
    subst first
    exact lost_start_not_recovered frame number asked
  · intro harmless
    exact head.asks_again patient (lost_byte_reading frame inside harmless _ _)

/-- The receiver has no previous number to compare with when it expects number 0. -/
theorem retransmission_verdict {copy : Frame} {accepted len : Nat} (intact : copy.intact = true)
    (number : copy.seqNo = UInt8.ofNat accepted) :
    copy.verdict (UInt8.ofNat (accepted + 1)) len = if accepted % 256 = 255 then .can else .dup := by
  have held : copy.seqNo.toNat = accepted % 256 := by rw [number, UInt8.toNat_ofNat']
  have expected : (UInt8.ofNat (accepted + 1)).toNat = (accepted + 1) % 256 := UInt8.toNat_ofNat'
  have other : copy.seqNo ≠ UInt8.ofNat (accepted + 1) := by
    intro same
    have equal := congrArg UInt8.toNat same
    omega
  by_cases wraps : accepted % 256 = 255
  · have different : ¬((copy.seqNo.toNat : Int) = (UInt8.ofNat (accepted + 1)).toNat - 1) := by omega
    rw [XmodemPacket.verdict, if_neg (by simp [intact]), if_neg different, if_pos other, if_pos wraps]
  · rw [if_neg wraps]
    exact XmodemPacket.verdict_dup intact (by omega)

theorem AtHead.last_number {readings : List Reading} {taken : List Frame} (head : AtHead buf readings taken s now)
    {last : Frame} (accepted : taken.getLast? = some last) : last.seqNo = UInt8.ofNat taken.length := by
  have nonempty : taken ≠ [] := by
    intro empty
    rw [empty] at accepted
    cases accepted
  have place : taken[taken.length - 1]? = some last := by rw [← accepted, List.getLast?_eq_getElem?]
  rw [(head.session.numbers _ _ place).1, Nat.sub_add_cancel (List.length_pos_iff.mpr nonempty)]

theorem AtHead.verdict_again {readings : List Reading} {taken : List Frame} (head : AtHead buf readings taken s now)
    {last copy : Frame} (accepted : taken.getLast? = some last) (intact : copy.intact = true) (same : copy.seqNo = last.seqNo) :
    copy.verdict s.expSeqNo s.bufLen = if taken.length % 256 = 255 then .can else .dup := by
  rw [head.number]
  exact retransmission_verdict intact (same.trans (head.last_number accepted))

theorem refused_not_absorbed {copy : Frame} (verdict : copy.verdict s.expSeqNo s.bufLen = .can) :
    ¬Absorbs s held (copy.bytes.map some) := by
  rintro ⟨later, kept, arrival, run, _⟩
  have read : ReadsPkt s.expSeqNo s.bufLen (copy.bytes.map some) _ [] := .refused copy (by rw [verdict]; simp)
  rw [verdict] at read
  have ended := reads_once read (by simp) run (arrival.trans (List.append_nil _).symm)
  cases ended

/-- At every point of a reception of any length, a repetition of the last accepted block is
absorbed, unless the number expected next is 0. -/
theorem retransmission_absorbed_iff (reached : Static.LoopHead receiveRound (Reception.start buf) pktBuf s held now)
    (patient : s.errCnt < maxRxErrors) {readings : List Reading} {taken : List Frame}
    (session : Session (toSize buf.length) readings taken) (heard : outcomes now = readings.flatMap Reading.heard)
    {last copy : Frame} (accepted : taken.getLast? = some last) (intact : copy.intact = true) (same : copy.seqNo = last.seqNo) :
    Absorbs s held (copy.bytes.map some) ↔ taken.length % 256 ≠ 255 := by
  obtain ⟨found, frames, head⟩ := Reception.at_head reached
  obtain ⟨rfl, rfl⟩ := session.unique head.session (heard.symm.trans head.heard)
  have verdict := head.verdict_again accepted intact same
  constructor
  · intro absorbed wraps
    rw [if_pos wraps] at verdict
    exact refused_not_absorbed verdict absorbed
  · intro small
    rw [if_neg small] at verdict
    have read : ReadsPkt s.expSeqNo s.bufLen (copy.bytes.map some) _ [] := .refused copy (by rw [verdict]; simp)
    rw [verdict] at read
    obtain ⟨later, kept, arrival, run⟩ := read.occurs_untaken (by simp) s.buf s.dataCnt held
    exact ⟨later, kept, arrival, run, receiveRound_occurs patient run, receiveRound_says { s with cmd := ack } kept patient⟩

theorem numbered_reached (count room : Nat) (fits : packetPayloadSize * count ≤ room) (short : room < 2 ^ 31) :
    ∃ s held now readings, Static.LoopHead receiveRound (Reception.start (List.replicate room 0)) .blank s held now ∧
      s.errCnt = 0 ∧ AtHead (List.replicate room 0) readings (numberedBlocks count) s now := by
  have size : toSize (List.replicate room (0 : UInt8)).length = room := by
    rw [List.length_replicate]
    exact toSize_nat (by omega)
  obtain ⟨readings, session, open_, calm⟩ := numbered_session count (toSize (List.replicate room (0 : UInt8)).length) (by rwa [size])
  obtain ⟨s, held, now, _, reached, head, _, _⟩ := session.head_occurs open_ (by rw [numberedBlocks_length]; omega) .blank
  exact ⟨s, held, now, readings, reached, head.errors.trans calm, head⟩

end Reached

theorem lost_byte_of_first_block : AsksAgain (Reception.start (List.replicate 128 0)) .blank
    (((numbered 1).bytes.eraseIdx 5).map some ++ [none]) := by
  have fresh : Static.LoopHead receiveRound (Reception.start (List.replicate 128 0)) .blank _ _ _ := .enter
  exact (lost_byte_recovered_iff fresh (by decide) (numbered 1) (by decide)).mpr (by simp)

/-- The first three of four blocks have been accepted. Without its SOH the fourth is taken for
an EOT, and the call returns with three blocks as if there were no more. -/
theorem lost_start_ends_reception : ∃ s held now later kept,
    Static.LoopHead receiveRound (Reception.start (List.replicate 512 0)) .blank s held now ∧ s.errCnt = 0 ∧
      (numbered 4).intact = true ∧ ¬AsksAgain s held (((numbered 4).bytes.eraseIdx 0).map some ++ [none]) ∧
      Runs ((receiveRound s).run held) later (.ret (.inr ⟨384, ack, s.buf⟩, kept)) ∧
      outcomes later <+: ((numbered 4).bytes.eraseIdx 0).map some := by
  obtain ⟨s, held, now, readings, reached, errors, head⟩ := numbered_reached 3 512 (by decide) (by decide)
  have number : (numbered 4).seqNo = eot := numbered_seqNo 4
  have count : s.dataCnt = 384 := by
    rw [head.count, numberedBlocks_length]
    exact toInt_of_range (by decide) (by decide)
  obtain ⟨later, kept, arrival, run⟩ :=
    (ReadsPkt.eot : ReadsPkt s.expSeqNo s.bufLen _ _ _).occurs_untaken (by simp) s.buf s.dataCnt held
  have ends := receiveRound_occurs (by rw [errors]; decide) run
  rw [Reception.settle, count] at ends
  refine ⟨s, held, now, _, kept, reached, errors, numbered_intact 4, lost_start_not_recovered _ number, ends, ?_⟩
  rw [number_heard_as_eot _ number, outcomes_append, outcomes_puts, arrival, List.nil_append]
  exact ⟨_, rfl⟩

theorem first_block_again : ∃ s held now,
    Static.LoopHead receiveRound (Reception.start (List.replicate 128 0)) .blank s held now ∧
      Absorbs s held ((numbered 1).bytes.map some) := by
  obtain ⟨s, held, now, readings, reached, errors, head⟩ := numbered_reached 1 128 (by decide) (by decide)
  exact ⟨s, held, now, reached, (retransmission_absorbed_iff reached (by rw [errors]; decide) head.session head.heard rfl
    (numbered_intact 1) rfl).mpr (by decide)⟩

/-- Block 255 is accepted and arrives once more, with room for another: the reception is cancelled. -/
theorem last_number_again_cancels : ∃ s held now readings later kept,
    Static.LoopHead receiveRound (Reception.start (List.replicate 32768 0)) .blank s held now ∧ s.errCnt = 0 ∧
      Session (toSize (List.replicate 32768 (0 : UInt8)).length) readings (numberedBlocks 255) ∧
      outcomes now = readings.flatMap Reading.heard ∧ (numberedBlocks 255).getLast? = some (numbered 255) ∧
      (numbered 255).intact = true ∧ ¬Absorbs s held ((numbered 255).bytes.map some) ∧
      outcomes later = (numbered 255).bytes.map some ∧
      Runs ((receiveRound s).run held) later (.ret (.inr ⟨-1, can, s.buf⟩, kept)) := by
  obtain ⟨s, held, now, readings, reached, errors, head⟩ := numbered_reached 255 32768 (by decide) (by decide)
  have last : (numberedBlocks 255).getLast? = some (numbered 255) := by
    rw [numberedBlocks_succ 254]
    exact List.getLast?_concat
  have verdict := head.verdict_again last (numbered_intact 255) rfl
  rw [numberedBlocks_length, if_pos (by decide)] at verdict
  have read : ReadsPkt s.expSeqNo s.bufLen ((numbered 255).bytes.map some) _ [] := .refused _ (by rw [verdict]; simp)
  rw [verdict] at read
  obtain ⟨later, kept, arrival, run⟩ := read.occurs_untaken (by simp) s.buf s.dataCnt held
  have ends := receiveRound_occurs (by rw [errors]; decide) run
  refine ⟨s, held, now, readings, _, kept, reached, errors, head.session, head.heard, last, numbered_intact 255,
    refused_not_absorbed verdict, ?_, ends⟩
  rw [outcomes_append, outcomes_puts, arrival, List.nil_append]

end DfuUtilQda.Xmodem

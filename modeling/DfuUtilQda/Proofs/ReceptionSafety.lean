import DfuUtilQda.Proofs.ReceptionFaults

/-! The receiver against an arbitrary peer: nothing that arrives makes it write
outside its buffer, count wrongly or take a block twice. -/

namespace DfuUtilQda.Xmodem
open Interaction Machine

theorem Session.counts {room : Nat} {readings : List Reading} {taken : List Frame} (session : Session room readings taken)
    (short : room < 2 ^ 31) : toInt (packetPayloadSize * taken.length) = packetPayloadSize * taken.length := by
  have fits := session.fits
  simp only [packetPayloadSize] at *
  exact toInt_of_range (by omega) (by omega)

theorem reception_returns {buf after : List UInt8} {pktBuf held : XmodemPacket} {now : History Io} {retv : Int}
    (short : buf.length < 2 ^ 31) (run : Runs ((xmodemReceivePackage buf).run pktBuf) now (.ret ((retv, after), held))) :
    ∃ readings taken, Session buf.length readings taken ∧ outcomes now = readings.flatMap Reading.heard ∧
      after = contents buf taken ∧
      (EndsOnEot readings ∧ retv = packetPayloadSize * taken.length ∨ ¬EndsOnEot readings ∧ retv = -1) := by
  have size : toSize buf.length = buf.length := toSize_nat (by omega)
  obtain ⟨readings, taken, ended⟩ := (xmodemReceivePackage_spec buf pktBuf).returns run
  have session := size ▸ ended.session
  refine ⟨readings, taken, session, ended.heard, ended.stored, ?_⟩
  by_cases success : EndsOnEot readings
  · exact Or.inl ⟨success, (ended.success success).trans (session.counts short)⟩
  · exact Or.inr ⟨success, ended.failure success⟩

/-- Whatever bytes and timeouts arrive: the offset into the buffer counts the accepted
blocks and never leaves it, and on return the buffer holds exactly their payloads. -/
theorem receiver_safe_against_any_peer (buf : List UInt8) (short : buf.length < 2 ^ 31) (pktBuf : XmodemPacket) :
    (∀ s held now, Static.LoopHead receiveRound (Reception.start buf) pktBuf s held now →
      ∃ readings taken, Session buf.length readings taken ∧ outcomes now = readings.flatMap Reading.heard ∧
        s.dataCnt = packetPayloadSize * taken.length ∧ s.dataCnt + s.bufLen = buf.length ∧ s.buf = contents buf taken) ∧
    (∀ now rest, Runs ((xmodemReceivePackage buf).run pktBuf) now rest → Sound now) ∧
    (∀ now retv after held, Runs ((xmodemReceivePackage buf).run pktBuf) now (.ret ((retv, after), held)) →
      ∃ readings taken, Session buf.length readings taken ∧ outcomes now = readings.flatMap Reading.heard ∧
        (readings.filter (fun reading => reading.status = .soh)).map Reading.heard =
          taken.map (fun frame => frame.bytes.map some) ∧
        (∀ (index : Nat) frame, taken[index]? = some frame → frame.seqNo = UInt8.ofNat (index + 1) ∧ frame.intact = true) ∧
        after = payloads taken ++ buf.drop (packetPayloadSize * taken.length) ∧
        (EndsOnEot readings ∧ (outcomes now).getLast? = some (some eot) ∧ retv = packetPayloadSize * taken.length ∨
          ¬EndsOnEot readings ∧ retv = -1)) := by
  have size : toSize buf.length = buf.length := toSize_nat (by omega)
  refine ⟨?_, ?_, ?_⟩
  · intro s held now head
    obtain ⟨readings, taken, at_⟩ := Reception.at_head head
    have session : Session buf.length readings taken := size ▸ at_.session
    have count := at_.count.trans (session.counts short)
    have room := at_.room
    exact ⟨readings, taken, session, at_.heard, count, by omega, at_.stored⟩
  · intro now rest run
    exact (xmodemReceivePackage_spec buf pktBuf).safe run short
  · intro now retv after held run
    obtain ⟨readings, taken, session, heard, stored, success | failure⟩ := reception_returns short run
    · exact ⟨readings, taken, session, heard, session.accepted, session.numbers, stored,
        Or.inl ⟨success.1, heard ▸ session.eot_heard success.1, success.2⟩⟩
    · exact ⟨readings, taken, session, heard, session.accepted, session.numbers, stored, Or.inr failure⟩

/-- Two blocks are taken, into a buffer that has room for more. -/
theorem receiver_safe_on_two_blocks : ∃ now held,
    Runs ((xmodemReceivePackage (List.replicate 300 9)).run .blank) now
      (.ret ((256, contents (List.replicate 300 9) (numberedBlocks 2)), held)) ∧
    Sound now ∧ (outcomes now).getLast? = some (some eot) := by
  have length : (List.replicate 300 (9 : UInt8)).length = 300 := List.length_replicate
  have room : toSize (List.replicate 300 (9 : UInt8)).length = 300 := by
    rw [length]
    exact toSize_nat (by decide)
  have fits : packetPayloadSize * 2 ≤ toSize (List.replicate 300 (9 : UInt8)).length := by
    rw [room]
    decide
  obtain ⟨readings, session, open_, calm⟩ := numbered_session 2 _ fits
  obtain ⟨dialogue, held, _, run⟩ := session.call_occurs open_ (by rw [numberedBlocks_length]; decide) (by rw [calm]; decide) .blank
  rw [numberedBlocks_length] at run
  obtain ⟨_, sound, returns⟩ := receiver_safe_against_any_peer (List.replicate 300 9) (by rw [length]; decide) .blank
  obtain ⟨_, _, _, _, _, _, _, success | failure⟩ := returns _ _ _ _ run
  · exact ⟨_, held, run, sound _ _ run, success.2.1⟩
  · exact absurd failure.2 (by decide)

end DfuUtilQda.Xmodem

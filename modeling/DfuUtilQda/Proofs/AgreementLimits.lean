import DfuUtilQda.Proofs.Agreement

/-! Where agreement over a cable ends. A stale acknowledgement hides the loss of a
block, and a timeout inside a frame can make its rest pass for another one. -/

namespace DfuUtilQda.Xmodem
open Interaction Machine

variable {α β : Type}

/-- What one would like to have: when both ends succeed, the message has arrived. -/
def Agreement : Prop :=
  ∀ (data buf : List UInt8) (pktBuf held : XmodemPacket) (sent received : Int) (after : List UInt8)
    (kept stored : XmodemPacket) (forth back : Line), data.length ≤ 8192 → packetPayloadSize * blockCount data ≤ buf.length →
    Cable.Reaches (.start ((xmodemTransmitPackage data).run pktBuf) ((xmodemReceivePackage buf).run held))
      ⟨.ret (sent, kept), .ret ((received, after), stored), forth, back⟩ →
    0 ≤ sent → 0 ≤ received → received = packetPayloadSize * blockCount data ∧ after.take data.length = data

/-- The transmitter times out too early and sends its first block twice. Both copies are
acknowledged, and the second ACK is taken for that of a second block which was lost. -/
private theorem stale_run (data buf : List UInt8) (long : 128 < data.length) (two : data.length ≤ 256)
    (room : 128 ≤ buf.length) (short : buf.length < 2 ^ 31) :
    ∃ kept after stored forth back,
      Cable.Reaches (.start ((xmodemTransmitPackage data).run .blank) ((xmodemReceivePackage buf).run .blank))
        ⟨.ret (256, kept), .ret ((128, after), stored), forth, back⟩ := by
  have few : (data.take packetPayloadSize).length ≤ 128 := List.length_take_le _ _
  have few' : ((data.drop packetPayloadSize).take packetPayloadSize).length ≤ 128 := List.length_take_le _ _
  have size : toSize buf.length = buf.length := toSize_nat (by omega)
  let first : Frame := ⟨XmodemPacket.blank.fill (data.take packetPayloadSize) 1, XmodemPacket.fill_marked _ _ _ few⟩
  let second : Frame := ⟨first.fill ((data.drop packetPayloadSize).take packetPayloadSize) 2, XmodemPacket.fill_marked _ _ _ few'⟩
  -- The transmitter's call.
  have acked : Answered ack maxRetransmit [some ack] true := .heard
  have retried : Answered ack maxRetransmit [none, some ack] true := .other (by simp) .heard
  have started : Answered charC maxRetransmit [some charC] true := .heard
  have blocks : SendsBlocks .blank data 1 (copies first.bytes [none, some ack] ++ (copies second.bytes [some ack] ++ []))
      (some 3) second.toXmodemPacket := by
    refine .sent (List.ne_nil_of_length_pos (by omega)) retried (.sent ?_ acked ?_)
    · exact List.ne_nil_of_length_pos (by simp [packetPayloadSize]; omega)
    · have done : (data.drop packetPayloadSize).drop packetPayloadSize = [] := by
        simp [packetPayloadSize]
        omega
      rw [done]
      exact .done
  have sends := (runs_transmitPackage _ _ _ _ _).mpr (Transmits.finished started blocks acked)
  -- The receiver's call.
  have session := @duplicate_session (toSize buf.length) first (by simp only [packetPayloadSize]; omega)
    (XmodemPacket.fill_intact _ _ _ few) (XmodemPacket.fill_seqNo _ _ _ few)
  obtain ⟨dialogue, stored, dialogues, receives⟩ := session.call_occurs (by simp [Open]) (by simp [packetPayloadSize])
    (by simp [errorRun, maxRxErrors]) .blank
  have sound := (xmodemReceivePackage_spec buf .blank).safe receives short
  cases dialogues with
  | @cons _ _ heard later arrival silent dialogues =>
  cases dialogues with
  | @cons _ _ heard' later' arrival' silent' dialogues =>
  cases dialogues with
  | @cons _ _ heard'' later'' arrival'' silent'' dialogues =>
  cases dialogues
  have bytes : heardBytes heard = first.bytes := heardBytes_of arrival
  have bytes' : heardBytes heard' = first.bytes := heardBytes_of arrival'
  have bytes'' : heardBytes heard'' = [eot] := @heardBytes_of _ [eot] arrival''
  simp only [sound_cons, sound_append] at sound
  obtain ⟨_, _, ⟨quiet, _⟩, ⟨quiet', _⟩, ⟨quiet'', _⟩, _⟩ := sound
  have unit : Befalls first.bytes first.bytes := .kept (Or.inl ⟨first, rfl⟩)
  have ending : Befalls [eot] [eot] := .kept (Or.inr ⟨eot, by decide, rfl⟩)
  have lost : Befalls second.bytes [] := .dropped (Or.inl ⟨second, rfl⟩)
  have reached : Cable.Reaches (.start ((xmodemTransmitPackage data).run .blank) ((xmodemReceivePackage buf).run .blank))
    (.start ((xmodemTransmitPackage data).run .blank) ((xmodemReceivePackage buf).run .blank)) := .refl
  have receives : Runs ((xmodemReceivePackage buf).run .blank) ((⟨.setTimeout timeoutStd, ()⟩ :: puts [charC]) ++
      ((heard ++ puts [ack] ++ (heard' ++ puts [ack])) ++ (heard'' ++ puts [ack])))
      (.ret ((128, contents buf [first]), stored)) := by simpa [packetPayloadSize] using receives
  have sends : Runs ((xmodemTransmitPackage data).run .blank)
      ((⟨.setTimeout timeoutStd, ()⟩ :: ([hears (some charC)] ++ puts first.bytes) ++ (hears none :: puts first.bytes)) ++
        ((([hears (some ack)] ++ puts second.bytes) ++ ([hears (some ack)] ++ puts [eot])) ++ [hears (some ack)]))
      (.ret (256, second.toXmodemPacket)) := by
    simpa [copies] using sends
  obtain ⟨r, reached, receives⟩ := reached.receives receives (.sets _ (acts_reply (List.Sublist.refl []) (Or.inl rfl)))
  obtain ⟨t, reached, sends⟩ := reached.transmits sends
    (Acts.append (.sets _ (@acts_next [] _ _ _ _ _ (by simp) (by simp) unit)) (.timesOut (acts_unit (by simp [unit]) unit)))
  obtain ⟨r, reached, receives⟩ := reached.receives receives
    ((acts_answer quiet silent (by simp [Line.after, bytes])).append
      (acts_answer quiet' silent' (by simp [Line.after, bytes, bytes'])))
  obtain ⟨t, reached, sends⟩ := reached.transmits sends
    ((acts_next (by simp) (by simp [unit]) lost).append (acts_next (by simp) (by simp [unit, lost]) ending))
  have answered := reached.tail (.receiver receives (acts_answer quiet'' silent'' (by simp [Line.after, bytes, bytes', bytes''])))
  exact ⟨_, _, _, _, _, answered.tail (.transmitter sends (.reads ack (by simp) .nil))⟩

theorem stale_acknowledgement_hides_a_loss : ¬Agreement := by
  intro agreement
  have length : (List.replicate 256 (7 : UInt8)).length = 256 := List.length_replicate
  have count : blockCount (List.replicate 256 (7 : UInt8)) = 2 := by
    rw [blockCount, length]
    rfl
  obtain ⟨kept, after, stored, forth, back, run⟩ := stale_run (List.replicate 256 7) (List.replicate 256 0)
    (by omega) (by omega) (by rw [List.length_replicate]; omega) (by rw [List.length_replicate]; omega)
  have claimed := (agreement _ _ _ _ _ _ _ _ _ _ _ (by omega) (by rw [count, List.length_replicate]; decide) run
    (by decide) (by decide)).1
  rw [count] at claimed
  cases claimed

section Torn

/-- A frame in two parts, either of which may come first in a valid frame numbered 1. -/
private def tornHead : List UInt8 := [0x01, 0x01, 0xFE, 0x0A, 0xE4]
private def tornTail : List UInt8 := [0x01, 0x01, 0xFE] ++ List.replicate 123 0 ++ [0x29, 0xB7]

private def tornData : List UInt8 := [0x0A, 0xE4, 0x01, 0x01, 0xFE] ++ List.replicate 123 0

private def tornFrame : Frame :=
  ⟨XmodemPacket.blank.fill tornData 1, XmodemPacket.fill_marked _ _ _ (by decide +kernel)⟩

private def forgedFrame : Frame := ⟨⟨tornTail ++ tornHead, by decide +kernel⟩, rfl⟩

set_option maxRecDepth 20000 in
private theorem tornFrame_bytes : tornFrame.bytes = tornHead ++ tornTail := by decide +kernel

set_option maxRecDepth 20000 in
private theorem forgedFrame_intact : forgedFrame.intact = true := by decide +kernel

private theorem tornTail_cons : tornTail = soh :: tornTail.tail := by decide +kernel

private theorem torn_session {room : Nat} (fits : packetPayloadSize ≤ room) :
    Session room [⟨tornHead.map some ++ [none], .err, charC⟩, ⟨forgedFrame.bytes.map some, .soh, ack⟩,
      ⟨(tornTail ++ [eot]).map some ++ [none], .err, nak⟩] [forgedFrame] := by
  have fresh : Session room [] [] := .opened
  have first : ReadsPkt 1 room (tornHead.map some ++ [none]) .err [] := .short tornHead.tail (by decide)
  have second : ReadsPkt 1 room (forgedFrame.bytes.map some) .soh [forgedFrame] :=
    .taken forgedFrame (XmodemPacket.verdict_soh.mpr ⟨forgedFrame_intact, rfl, fits⟩)
  have third : ReadsPkt 2 (room - packetPayloadSize) ((tornTail ++ [eot]).map some ++ [none]) .err [] := by
    rw [tornTail_cons]
    exact .short (tornTail.tail ++ [eot]) (by decide +kernel)
  exact .read (.read (.read fresh (by simp) (by decide) first) (by simp) (by simp [errorRun, maxRxErrors]) second) (by simp)
    (by simp [errorRun, maxRxErrors]) third

/-- Nothing is lost or damaged here. Timing out in the middle of a frame, the receiver takes the
rest of it and the beginning of the next copy for a frame of their own, whose checksum fits. -/
theorem torn_frame_passes_for_a_block : ∃ kept after stored forth back,
    Cable.Reaches (.start ((xmodemTransmitPackage tornData).run .blank) ((xmodemReceivePackage (List.replicate 128 0)).run .blank))
      ⟨.ret (128, kept), .ret ((128, after), stored), forth, back⟩ ∧ after.take 128 ≠ tornData := by
  have acked : Answered ack maxRetransmit [some nak, some ack] true := .other (by decide) .heard
  have asked : Answered ack maxRetransmit [some charC, some ack] true := .other (by decide) .heard
  have started : Answered charC maxRetransmit [some charC] true := .heard
  have blocks : SendsBlocks .blank tornData 1 (copies tornFrame.bytes [some charC, some ack] ++ [])
      (some 2) tornFrame.toXmodemPacket := by
    have whole : tornData.take packetPayloadSize = tornData := by decide +kernel
    have block := @SendsBlocks.sent .blank tornFrame.toXmodemPacket tornData 1 _ [] (some 2) (by decide +kernel) asked
    rw [whole] at block
    refine block ?_
    have done : tornData.drop packetPayloadSize = [] := by decide +kernel
    rw [done]
    exact .done
  have sends := (runs_transmitPackage _ _ _ _ _).mpr (Transmits.finished started blocks acked)
  have size : toSize (List.replicate 128 (0 : UInt8)).length = 128 := by
    rw [List.length_replicate]
    exact toSize_nat (by decide)
  have session := @torn_session (toSize (List.replicate 128 (0 : UInt8)).length) (by rw [size]; decide)
  obtain ⟨dialogue, stored, dialogues, receives⟩ := session.call_occurs (by simp [Open]) (by simp [packetPayloadSize])
    (by simp [errorRun, maxRxErrors]) .blank
  have sound := (xmodemReceivePackage_spec _ .blank).safe receives (by rw [List.length_replicate]; decide)
  cases dialogues with
  | @cons _ _ heard later arrival silent dialogues =>
  cases dialogues with
  | @cons _ _ heard' later' arrival' silent' dialogues =>
  cases dialogues with
  | @cons _ _ heard'' later'' arrival'' silent'' dialogues =>
  cases dialogues with
  | @cons _ _ last ended arrived quiet dialogues =>
  cases dialogues
  simp only [sound_cons, sound_append] at sound
  obtain ⟨_, _, ⟨safe, _⟩, ⟨safe', _⟩, ⟨safe'', _⟩, ⟨safely, _⟩, _⟩ := sound
  have bytes : heardBytes heard = tornHead := by
    rw [heardBytes, arrival]
    rfl
  have bytes' : heardBytes heard' = tornTail ++ tornHead := heardBytes_of arrival'
  have bytes'' : heardBytes heard'' = tornTail ++ [eot] := by
    rw [heardBytes, arrival'', List.filterMap_append, List.filterMap_map]
    exact (List.append_nil _).trans List.filterMap_some
  have ending : heardBytes last = [eot] := by
    rw [heardBytes, arrived]
    rfl
  have unit : Befalls (tornHead ++ tornTail) (tornHead ++ tornTail) := .kept (Or.inl ⟨tornFrame, tornFrame_bytes.symm⟩)
  have eots : Befalls [eot] [eot] := .kept (Or.inr ⟨eot, by decide, rfl⟩)
  have result : (packetPayloadSize * [forgedFrame].length : Int) = 128 := rfl
  rw [result] at receives
  have reached : Cable.Reaches
    (.start ((xmodemTransmitPackage tornData).run .blank) ((xmodemReceivePackage (List.replicate 128 0)).run .blank))
    (.start ((xmodemTransmitPackage tornData).run .blank) ((xmodemReceivePackage (List.replicate 128 0)).run .blank)) := .refl
  have receives : Runs ((xmodemReceivePackage (List.replicate 128 0)).run .blank) ((⟨.setTimeout timeoutStd, ()⟩ :: puts [charC]) ++
      ((heard ++ puts [charC]) ++ ((heard' ++ puts [ack]) ++ ((heard'' ++ puts [nak]) ++ (last ++ puts [ack])))))
      (.ret ((128, contents (List.replicate 128 0) [forgedFrame]), stored)) := by
    simpa only [List.cons_append, List.append_nil] using receives
  have sends : Runs ((xmodemTransmitPackage tornData).run .blank)
      ((⟨.setTimeout timeoutStd, ()⟩ :: ([hears (some charC)] ++ puts (tornHead ++ tornTail))) ++
        (([hears (some charC)] ++ puts (tornHead ++ tornTail)) ++ (([hears (some ack)] ++ puts [eot]) ++
          (([hears (some nak)] ++ puts [eot]) ++ [hears (some ack)]))))
      (.ret (128, tornFrame.toXmodemPacket)) := by
    rw [tornFrame_bytes] at sends
    simpa [copies] using sends
  obtain ⟨r, reached, receives⟩ := reached.receives receives (.sets _ (acts_reply (List.Sublist.refl []) (Or.inl rfl)))
  obtain ⟨t, reached, sends⟩ := reached.transmits sends
    (.sets _ (@acts_next [] _ _ _ _ _ (by simp) (by simp) unit))
  obtain ⟨r, reached, receives⟩ := reached.receives receives (acts_answer safe silent (by simp [Line.after, bytes]))
  obtain ⟨t, reached, sends⟩ := reached.transmits sends (acts_next (by simp) (by simp [unit]) unit)
  obtain ⟨r, reached, receives⟩ := reached.receives receives (acts_answer safe' silent' (by simp [Line.after, bytes, bytes']))
  obtain ⟨t, reached, sends⟩ := reached.transmits sends (acts_next (by simp) (by simp [unit]) eots)
  obtain ⟨r, reached, receives⟩ := reached.receives receives
    (acts_answer safe'' silent'' (by simp [Line.after, bytes, bytes', bytes'']))
  obtain ⟨t, reached, sends⟩ := reached.transmits sends (acts_next (by simp) (by simp [unit, eots]) eots)
  have answered := reached.tail (.receiver receives
    (acts_answer safely quiet (by simp [Line.after, bytes, bytes', bytes'', ending])))
  refine ⟨_, _, _, _, _, answered.tail (.transmitter sends (.reads ack (by simp) .nil)), ?_⟩
  decide +kernel

end Torn

end DfuUtilQda.Xmodem

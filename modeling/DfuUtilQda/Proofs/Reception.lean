import DfuUtilQda.Proofs.PacketReads

/-! A whole call of `xmodem_receive_package` against an arbitrary peer. The call
is a session of packet reads; the loop's local variables are functions of it. -/

namespace DfuUtilQda.Xmodem
open Interaction Machine

structure Reading where
  heard : List (Option UInt8)
  status : Status
  reply : UInt8

/-- The byte a reading is answered with, once `accepted` blocks have been accepted. -/
def replyTo (accepted : Nat) : Status → UInt8
  | .soh | .dup | .eot => ack
  | .can => can
  | .err => if accepted = 0 then charC else nak

/-- Consecutive errors. A new block ends the run, a duplicate leaves it as it is. -/
def errorRun (readings : List Reading) : Nat :=
  readings.foldl (fun count reading => match reading.status with
    | .soh => 0
    | .err => count + 1
    | _ => count) 0

/-- `Session room readings taken`: a receiver with a buffer of `room` bytes can make
these packet reads, one after the other, and accepts the frames `taken` in them. -/
inductive Session (room : Nat) : List Reading → List Frame → Prop where
  | opened : Session room [] []
  | read {readings : List Reading} {taken : List Frame} {heard : List (Option UInt8)} {status : Status} {new : List Frame}
      (earlier : Session room readings taken)
      (open_ : ∀ reading ∈ readings, reading.status ≠ .eot ∧ reading.status ≠ .can)
      (patient : errorRun readings < maxRxErrors)
      (next : ReadsPkt (UInt8.ofNat (taken.length + 1)) (room - packetPayloadSize * taken.length) heard status new) :
      Session room (readings ++ [⟨heard, status, replyTo (taken ++ new).length status⟩]) (taken ++ new)

def payloads (taken : List Frame) : List UInt8 := taken.flatMap fun frame => frame.data

def contents (buf : List UInt8) (taken : List Frame) : List UInt8 :=
  payloads taken ++ buf.drop (packetPayloadSize * taken.length)

def EndsOnEot (readings : List Reading) : Prop := ∃ reading, readings.getLast? = some reading ∧ reading.status = .eot

theorem ReadsPkt.taken_nil {expSeqNo : UInt8} {len : Nat} {heard : List (Option UInt8)} {status : Status} {new : List Frame}
    (read : ReadsPkt expSeqNo len heard status new) (other : status ≠ .soh) : new = [] := by
  cases read with
  | taken => contradiction
  | _ => rfl

theorem ReadsPkt.taken_one {expSeqNo : UInt8} {len : Nat} {heard : List (Option UInt8)} {new : List Frame}
    (read : ReadsPkt expSeqNo len heard .soh new) : ∃ frame : Frame, new = [frame] ∧
      heard = frame.bytes.map some ∧ frame.verdict expSeqNo len = .soh := by
  generalize same : Status.soh = status at read
  cases read with
  | refused frame verdict => exact absurd same.symm verdict
  | taken frame verdict => exact ⟨frame, rfl, rfl, verdict⟩
  | _ => cases same

@[simp] theorem errorRun_snoc (readings : List Reading) (reading : Reading) :
    errorRun (readings ++ [reading]) = match reading.status with
      | .soh => 0
      | .err => errorRun readings + 1
      | _ => errorRun readings := by
  simp [errorRun]

@[simp] theorem endsOnEot_snoc (readings : List Reading) (reading : Reading) :
    EndsOnEot (readings ++ [reading]) ↔ reading.status = .eot := by
  simp [EndsOnEot]

theorem payloads_length (taken : List Frame) : (payloads taken).length = packetPayloadSize * taken.length := by
  induction taken with
  | nil => rfl
  | cons frame taken ih =>
    have size := frame.data_length
    simp only [payloads, packetPayloadSize, List.flatMap_cons, List.length_append, List.length_cons] at ih ⊢
    omega

namespace Session

variable {room : Nat} {readings : List Reading} {taken : List Frame}

theorem fits (session : Session room readings taken) : packetPayloadSize * taken.length ≤ room := by
  induction session with
  | opened => simp
  | @read readings taken heard status new earlier open_ patient next ih =>
    cases next with
    | taken frame verdict =>
      have room := (XmodemPacket.verdict_soh.mp verdict).2.2
      simp only [packetPayloadSize, List.length_append, List.length_singleton] at ih room ⊢
      omega
    | _ => simpa using ih

theorem numbers (session : Session room readings taken) (index : Nat) (frame : Frame) (found : taken[index]? = some frame) :
    frame.seqNo = UInt8.ofNat (index + 1) ∧ frame.intact = true := by
  induction session with
  | opened => simp at found
  | @read readings taken heard status new earlier open_ patient next ih =>
    cases next with
    | taken last verdict =>
      obtain ⟨intact, number, _⟩ := XmodemPacket.verdict_soh.mp verdict
      rw [List.getElem?_append] at found
      split at found
      · exact ih found
      · rw [List.getElem?_singleton] at found
        split at found
        · cases found
          have same : index = taken.length := by omega
          exact ⟨same ▸ number, intact⟩
        · cases found
    | _ => exact ih (by simpa using found)

theorem accepted (session : Session room readings taken) :
    (readings.filter (fun reading => reading.status = .soh)).map Reading.heard =
      taken.map fun frame => frame.bytes.map some := by
  induction session with
  | opened => rfl
  | @read readings taken heard status new earlier open_ patient next ih =>
    cases next with
    | refused frame verdict =>
      generalize frame.verdict _ _ = status at verdict ⊢
      simpa [verdict] using ih
    | _ => simpa using ih

end Session

theorem Session.eot_heard {room : Nat} {readings : List Reading} {taken : List Frame} (session : Session room readings taken)
    (ended : EndsOnEot readings) : (readings.flatMap Reading.heard).getLast? = some (some eot) := by
  cases session with
  | opened => simp [EndsOnEot] at ended
  | @read readings taken heard status new earlier open_ patient next =>
    obtain rfl : status = .eot := (endsOnEot_snoc readings _).mp ended
    have last : heard = [some eot] := by
      generalize same : Status.eot = status at next
      cases next with
      | eot => rfl
      | refused frame verdict => exact absurd same.symm (by unfold XmodemPacket.verdict; split_ifs <;> simp)
      | _ => cases same
    simp [last]

/-- The state of the receiver's loop at its head, in terms of the session so far. -/
structure AtHead (buf : List UInt8) (readings : List Reading) (taken : List Frame) (s : Reception)
    (now : History Io) : Prop where
  session : Session (toSize buf.length) readings taken
  going : ∀ reading ∈ readings, reading.status ≠ .eot ∧ reading.status ≠ .can
  heard : outcomes now = readings.flatMap Reading.heard
  said : emitted now ++ [s.cmd] = charC :: readings.map Reading.reply
  number : s.expSeqNo = UInt8.ofNat (taken.length + 1)
  nak : s.nak = replyTo taken.length .err
  errors : s.errCnt = errorRun readings
  count : s.dataCnt = toInt (packetPayloadSize * taken.length)
  counted : taken.length ≤ 2 ^ 24
  room : s.bufLen + packetPayloadSize * taken.length = toSize buf.length
  stored : s.buf = contents buf taken

theorem contents_length {buf : List UInt8} {taken : List Frame} (fits : packetPayloadSize * taken.length ≤ buf.length) :
    (contents buf taken).length = buf.length := by
  rw [contents, List.length_append, payloads_length, List.length_drop]
  omega

theorem AtHead.start (buf : List UInt8) (history : History Io) (fresh : outcomes history = []) (silent : emitted history = []) :
    AtHead buf [] [] (Reception.start buf) history where
  session := .opened
  going := by simp
  heard := by simpa using fresh
  said := by simp [silent, Reception.start]
  number := rfl
  nak := rfl
  errors := rfl
  count := by simp [Reception.start, toInt_of_range]
  counted := by simp
  room := by simp [Reception.start]
  stored := by simp [Reception.start, contents, payloads]

theorem AtHead.replies {buf : List UInt8} {readings : List Reading} {reading : Reading} {taken : List Frame} {s : Reception}
    {now : History Io} (head : AtHead buf (readings ++ [reading]) taken s now) : s.cmd = reading.reply := by
  have said := head.said
  rw [List.map_append, ← List.cons_append] at said
  exact List.singleton_inj.mp (List.append_inj_right' said rfl)

section Step

variable {buf : List UInt8} {readings : List Reading} {taken : List Frame} {s : Reception} {now : History Io}

theorem AtHead.offset (head : AtHead buf readings taken s now) (small : packetPayloadSize * taken.length < 2 ^ 31)
    (room : packetPayloadSize ≤ s.bufLen) : 0 ≤ s.dataCnt ∧ s.dataCnt + packetPayloadSize ≤ s.buf.length := by
  have size := toSize_le buf.length
  have total := head.room
  have fits : packetPayloadSize * taken.length ≤ buf.length := by omega
  rw [head.stored, contents_length fits, head.count]
  simp only [packetPayloadSize] at *
  rw [toInt_of_range (by omega) (by omega)]
  omega

theorem AtHead.stores (head : AtHead buf readings taken s now) {frame : Frame} {after : List UInt8}
    (done : memcpy s.buf s.dataCnt frame.data = some after) (room : packetPayloadSize ≤ s.bufLen) :
    taken.length < 2 ^ 24 ∧ after = contents buf (taken ++ [frame]) := by
  have size := toSize_le buf.length
  have total := head.room
  have count := head.count
  have counted := head.counted
  have whole := frame.data_length
  have ahead := payloads_length taken
  have fits : packetPayloadSize * taken.length ≤ buf.length := by omega
  simp only [memcpy] at done
  split at done
  next inside =>
    cases done
    have below : taken.length < 2 ^ 24 := by
      simp only [packetPayloadSize, toInt] at count
      omega
    have here : s.dataCnt.toNat = packetPayloadSize * taken.length := by
      rw [count, toInt_of_range (by simp only [packetPayloadSize]; omega) (by simp only [packetPayloadSize]; omega)]
      omega
    have length := contents_length fits
    refine ⟨below, ?_⟩
    rw [here, head.stored, patch_eq _ _ _ (by rw [length, whole]; simp only [packetPayloadSize] at *; omega)]
    simp only [contents, payloads, List.flatMap_append, List.flatMap_singleton]
    rw [← payloads, List.take_left' ahead, ← ahead, List.drop_append, whole]
    simp [ahead, packetPayloadSize, Nat.mul_add]
  next outside => cases done

theorem AtHead.reads (head : AtHead buf readings taken s now) (patient : s.errCnt < maxRxErrors)
    {heard : List (Option UInt8)} {status : Status} {new : List Frame}
    (read : ReadsPkt s.expSeqNo s.bufLen heard status new) :
    Session (toSize buf.length) (readings ++ [⟨heard, status, replyTo (taken ++ new).length status⟩]) (taken ++ new) := by
  have left : s.bufLen = toSize buf.length - packetPayloadSize * taken.length := by
    have total := head.room
    omega
  exact .read head.session head.going (head.errors ▸ patient) (head.number ▸ left ▸ read)

theorem AtHead.again (head : AtHead buf readings taken s now) (patient : s.errCnt < maxRxErrors)
    {later : History Io} {status : Status} {new : List Frame} {after : List UInt8} {next : Reception}
    (silent : emitted later = [])
    (read : ReadsPkt s.expSeqNo s.bufLen (outcomes later) status new)
    (store : Stores s.buf s.dataCnt new after)
    (same : status = .soh ∧ next = { s with
        buf := after, nak := Xmodem.nak, cmd := ack, errCnt := 0
        dataCnt := toInt (s.dataCnt + packetPayloadSize)
        bufLen := toSize (s.bufLen - packetPayloadSize)
        expSeqNo := s.expSeqNo + 1 } ∨
      status = .dup ∧ next = { s with buf := after, cmd := ack } ∨
      status = .err ∧ next = { s with buf := after, errCnt := s.errCnt + 1, cmd := s.nak }) :
    AtHead buf (readings ++ [⟨outcomes later, status, replyTo (taken ++ new).length status⟩]) (taken ++ new) next
      (now ++ [⟨.putc s.cmd, ()⟩] ++ later) := by
  have heard : outcomes (now ++ [⟨.putc s.cmd, ()⟩] ++ later) =
      (readings ++ [(⟨outcomes later, status, replyTo (taken ++ new).length status⟩ : Reading)]).flatMap Reading.heard := by
    simp [head.heard]
  have replied : emitted (now ++ [⟨.putc s.cmd, ()⟩] ++ later) = charC :: readings.map Reading.reply := by
    simp [silent, ← head.said]
  have session := head.reads patient read
  have going : status ≠ .eot ∧ status ≠ .can := by
    rcases same with ⟨rfl, _⟩ | ⟨rfl, _⟩ | ⟨rfl, _⟩ <;> simp
  have goes : ∀ reading ∈ readings ++ [(⟨outcomes later, status, replyTo (taken ++ new).length status⟩ : Reading)],
      reading.status ≠ .eot ∧ reading.status ≠ .can := by
    intro reading member
    rcases List.mem_append.mp member with earlier | last
    · exact head.going reading earlier
    · rw [List.mem_singleton.mp last]
      exact going
  rcases same with ⟨rfl, rfl⟩ | ⟨rfl, rfl⟩ | ⟨rfl, rfl⟩
  · obtain ⟨frame, rfl, _, verdict⟩ := read.taken_one
    have room := (XmodemPacket.verdict_soh.mp verdict).2.2
    obtain ⟨none, _⟩ | ⟨_, one, done⟩ := store
    · cases none
    · cases one
      obtain ⟨below, stored⟩ := head.stores done room
      have total := head.room
      have size := toSize_lt buf.length
      have left : (toSize (s.bufLen - packetPayloadSize) : Int) = s.bufLen - packetPayloadSize :=
        toSize_of_range (by omega) (by omega)
      refine ⟨session, goes, heard, ?_, ?_, ?_, ?_, ?_, ?_, ?_, stored⟩
      · rw [replied]
        simp [replyTo]
      · simp [head.number]
      · simp [replyTo]
      · simp
      · rw [head.count, toInt_add, List.length_append, List.length_singleton]
        exact congrArg toInt (by simp only [packetPayloadSize]; omega)
      · simp only [List.length_append, List.length_singleton]
        omega
      · simp only [packetPayloadSize, List.length_append, List.length_singleton] at *
        omega
  · obtain rfl := read.taken_nil (by simp)
    obtain ⟨_, rfl⟩ | ⟨_, impossible, _⟩ := store
    · refine ⟨session, goes, heard, ?_, ?_, ?_, ?_, ?_, ?_, ?_, ?_⟩
      · rw [replied]
        simp [replyTo]
      all_goals simp only [List.append_nil, errorRun_snoc]
      · exact head.number
      · exact head.nak
      · exact head.errors
      · exact head.count
      · exact head.counted
      · exact head.room
      · exact head.stored
    · cases impossible
  · obtain rfl := read.taken_nil (by simp)
    obtain ⟨_, rfl⟩ | ⟨_, impossible, _⟩ := store
    · refine ⟨session, goes, heard, ?_, ?_, ?_, ?_, ?_, ?_, ?_, ?_⟩
      · rw [replied, head.nak]
        simp
      all_goals simp only [List.append_nil, errorRun_snoc]
      · exact head.number
      · exact head.nak
      · rw [head.errors]
      · exact head.count
      · exact head.counted
      · exact head.room
      · exact head.stored
    · cases impossible

end Step

/-- How a call that has come to its end went. -/
structure Ended (buf : List UInt8) (readings : List Reading) (taken : List Frame) (retv : Int) (after : List UInt8)
    (now : History Io) : Prop where
  session : Session (toSize buf.length) readings taken
  heard : outcomes now = readings.flatMap Reading.heard
  said : emitted now = charC :: readings.map Reading.reply
  stored : after = contents buf taken
  success : EndsOnEot readings → retv = toInt (packetPayloadSize * taken.length)
  failure : ¬EndsOnEot readings → retv = -1

/-- A reading that ends the loop: an EOT, or a packet that cannot be recovered from. -/
theorem AtHead.closes {buf : List UInt8} {readings : List Reading} {taken : List Frame} {s : Reception} {now : History Io}
    (head : AtHead buf readings taken s now) (patient : s.errCnt < maxRxErrors)
    {later : History Io} {status : Status} {new : List Frame} {after : List UInt8} {retv : Int} {cmd : UInt8}
    (silent : emitted later = [])
    (read : ReadsPkt s.expSeqNo s.bufLen (outcomes later) status new)
    (store : Stores s.buf s.dataCnt new after)
    (same : status = .eot ∧ retv = s.dataCnt ∧ cmd = ack ∨ status = .can ∧ retv = -1 ∧ cmd = can) :
    Ended buf (readings ++ [⟨outcomes later, status, replyTo (taken ++ new).length status⟩]) (taken ++ new) retv after
      (now ++ [⟨.putc s.cmd, ()⟩] ++ later ++ [⟨.putc cmd, ()⟩]) := by
  have session := head.reads patient read
  have other : status ≠ .soh := by rcases same with ⟨rfl, _⟩ | ⟨rfl, _⟩ <;> simp
  obtain rfl := read.taken_nil other
  obtain ⟨_, rfl⟩ | ⟨_, impossible, _⟩ := store
  · refine ⟨session, by simp [head.heard], ?_, by simpa using head.stored, ?_, ?_⟩
    · have replied : emitted now ++ [s.cmd] = charC :: readings.map Reading.reply := head.said
      rw [emitted_append, emitted_append, emitted_append, silent, List.append_nil]
      change emitted now ++ [s.cmd] ++ [cmd] = _
      rw [replied]
      rcases same with ⟨rfl, _, rfl⟩ | ⟨rfl, _, rfl⟩ <;> simp [replyTo]
    all_goals
      rw [endsOnEot_snoc]
      intro ending
      rcases same with ⟨rfl, rfl, _⟩ | ⟨rfl, rfl, _⟩
    · simpa using head.count
    · cases ending
    · exact absurd rfl ending
    · rfl
  · cases impossible

theorem receiveRound_spec (buf : List UInt8) (s : Reception) (pktBuf : XmodemPacket) (now : History Io)
    (readings : List Reading) (taken : List Frame) (head : AtHead buf readings taken s now)
    (safe : buf.length < 2 ^ 31 → Sound now) :
    wp (fun now => buf.length < 2 ^ 31 → Sound now) ((receiveRound s).run pktBuf) (fun outcome now =>
      (buf.length < 2 ^ 31 → Sound now) ∧ ∃ readings taken, match outcome.1 with
        | .inl s => AtHead buf readings taken s now
        | .inr ended => Ended buf readings taken ended.retv ended.buf (now ++ [⟨.putc ended.cmd, ()⟩])) now := by
  unfold receiveRound
  split
  next patient =>
    simp only [StateT.run_bind, wp_seq, wp_putc]
    refine ⟨safe, fun short => by simpa using safe short, ?_⟩
    have inside (short : buf.length < 2 ^ 31) (room : packetPayloadSize ≤ s.bufLen) :=
      head.offset (Nat.lt_of_le_of_lt (Nat.le_trans head.session.fits (toSize_le _)) short) room
    refine (xmodemReadPkt_spec s.expSeqNo s.buf s.dataCnt s.bufLen pktBuf _ inside).frame
      (fun later kept short => by simpa using ⟨safe short, kept short⟩) ?_
    rintro ⟨⟨status, after⟩, held⟩ later kept ⟨silent, new, read, store⟩
    have sound : buf.length < 2 ^ 31 → Sound (now ++ [⟨.putc s.cmd, ()⟩] ++ later) :=
      fun short => by simpa using ⟨safe short, kept short⟩
    cases status with
    | soh => exact (wp_pure _).mpr ⟨sound, sound, _, _, head.again patient silent read store (Or.inl ⟨rfl, rfl⟩)⟩
    | dup => exact (wp_pure _).mpr ⟨sound, sound, _, _, head.again patient silent read store (Or.inr (Or.inl ⟨rfl, rfl⟩))⟩
    | err => exact (wp_pure _).mpr ⟨sound, sound, _, _, head.again patient silent read store (Or.inr (Or.inr ⟨rfl, rfl⟩))⟩
    | eot => exact (wp_pure _).mpr ⟨sound, sound, _, _, head.closes patient silent read store (Or.inl ⟨rfl, rfl, rfl⟩)⟩
    | can => exact (wp_pure _).mpr ⟨sound, sound, _, _, head.closes patient silent read store (Or.inr ⟨rfl, rfl, rfl⟩)⟩
  next exhausted =>
    refine (wp_pure _).mpr ⟨safe, safe, readings, taken, head.session, ?_, ?_, head.stored, ?_, fun _ => rfl⟩
    · simpa using head.heard
    · simpa using head.said
    · rintro ⟨reading, last, ended⟩
      exact absurd ended (head.going reading (List.mem_of_getLast? last)).1

theorem Reception.at_head {buf : List UInt8} {pktBuf held : XmodemPacket} {s : Reception} {now : History Io}
    (reached : Static.LoopHead receiveRound (Reception.start buf) pktBuf s held now) :
    ∃ readings taken, AtHead buf readings taken s now := by
  refine (reached.holds
    (fun s _ now => (buf.length < 2 ^ 31 → Sound now) ∧ ∃ readings taken, AtHead buf readings taken s now)
    ⟨fun _ => sound_nil, [], [], .start buf [] rfl rfl⟩ ?_).2
  intro s held now invariant
  obtain ⟨safe, readings, taken, head⟩ := invariant
  refine (receiveRound_spec buf s held now readings taken head safe).mono (fun _ _ => trivial) ?_
  rintro ⟨outcome, kept⟩ now _ ⟨safe, readings, taken, result⟩
  cases outcome with
  | inl s => exact ⟨safe, readings, taken, result⟩
  | inr ended => trivial

theorem xmodemReceivePackage_spec (buf : List UInt8) (pktBuf : XmodemPacket) :
    wp (fun now => buf.length < 2 ^ 31 → Sound now) ((xmodemReceivePackage buf).run pktBuf) (fun result now =>
      ∃ readings taken, Ended buf readings taken result.1.1 result.1.2 now) [] := by
  simp only [xmodemReceivePackage, StateT.run_bind, wp_seq, wp_setTimeout, List.nil_append]
  refine ⟨fun _ => by simp, fun _ => by simp, ?_⟩
  have looped : wp (fun now => buf.length < 2 ^ 31 → Sound now)
      ((Static.loop receiveRound (Reception.start buf)).run pktBuf) (fun outcome now => ∃ readings taken,
        Ended buf readings taken outcome.1.retv outcome.1.buf (now ++ [⟨.putc outcome.1.cmd, ()⟩]))
      [⟨.setTimeout timeoutStd, ()⟩] := by
    apply wp.static_loop (fun s _ now => (buf.length < 2 ^ 31 → Sound now) ∧ ∃ readings taken, AtHead buf readings taken s now)
    · exact ⟨fun _ => by simp, [], [], .start buf _ rfl rfl⟩
    · rintro s held now ⟨safe, readings, taken, head⟩
      refine (receiveRound_spec buf s held now readings taken head safe).imp ?_
      rintro ⟨outcome, kept⟩ now _ ⟨safe, readings, taken, result⟩
      cases outcome with
      | inl s => exact ⟨safe, readings, taken, result⟩
      | inr ended => exact ⟨readings, taken, result⟩
  refine looped.imp ?_
  rintro ⟨ended, held⟩ now safe ⟨readings, taken, result⟩
  simp only [wp_putc]
  exact ⟨safe, fun short => by simpa using safe short,
    (wp_pure _).mpr ⟨fun short => by simpa using safe short, readings, taken, result⟩⟩

end DfuUtilQda.Xmodem

import DfuUtilQda.Interaction.Complete
import DfuUtilQda.Proofs.PacketReads
import DfuUtilQda.Xmodem.Sender

/-! A whole call of `xmodem_transmit_package`. What the receiver answers determines
the history of the call completely, and every history of this form occurs. -/

namespace DfuUtilQda.Xmodem
open Interaction Machine

theorem crc_bytes (crc : UInt16) :
    (((crc >>> 8) &&& 0xFF).toUInt8.toUInt16 <<< 8) ||| (crc &&& 0xFF).toUInt8.toUInt16 = crc := by
  apply UInt16.toNat.inj
  have below := crc.toNat_lt
  have byte (value : Nat) : value &&& 255 = value % 256 := Nat.and_two_pow_sub_one_eq_mod value 8
  simp only [UInt16.toNat_or, UInt16.toNat_shiftLeft, UInt8.toNat_toUInt16, UInt16.toNat_toUInt8, UInt16.toNat_and,
    UInt16.toNat_shiftRight, UInt16.toNat_ofNat, Nat.reducePow, Nat.reduceMod, byte, Nat.shiftRight_eq_div_pow]
  rw [Nat.shiftLeft_eq, Nat.mod_eq_of_lt (a := _ * _) (by omega), ← Nat.shiftLeft_eq,
    ← Nat.shiftLeft_add_eq_or_of_lt (by omega), Nat.shiftLeft_eq]
  omega

namespace XmodemPacket

/-- A packet put together from its fields. -/
def ofFields (mark seqNo seqNoInv : UInt8) (data : List UInt8) (crc : UInt8 × UInt8) (size : data.length = 128) :
    XmodemPacket :=
  ⟨mark :: seqNo :: seqNoInv :: (data ++ [crc.1, crc.2]), by simp [size]⟩

theorem fields (packet : XmodemPacket) :
    ∃ mark seqNo seqNoInv crc, packet = ofFields mark seqNo seqNoInv packet.data crc packet.data_length := by
  obtain ⟨bytes, size⟩ := packet
  match bytes with
  | [] | [_] | [_, _] => simp at size
  | mark :: seqNo :: seqNoInv :: rest =>
    have length : rest.length = 130 := by simpa using size
    have split : rest = rest.take 128 ++ [rest[128], rest[129]] := by
      conv => lhs; rw [← List.take_append_drop 128 rest]
      congr 1
      apply List.ext_getElem (by simp [length])
      intro index inside _
      have small : index < 2 := by simp [length] at inside; omega
      match index with
      | 0 | 1 => simp
    refine ⟨mark, seqNo, seqNoInv, (rest[128], rest[129]), ?_⟩
    simp only [ofFields, mk.injEq, data, packetPayloadSize, List.drop_succ_cons, List.drop_zero]
    rw [← split]

theorem data_ofFields (mark seqNo seqNoInv : UInt8) (data : List UInt8) (crc : UInt8 × UInt8) (size : data.length = 128) :
    (ofFields mark seqNo seqNoInv data crc size).data = data := by
  simp [ofFields, XmodemPacket.data, packetPayloadSize, List.take_left' size]

private theorem fill_ofFields (mark seqNo seqNoInv : UInt8) (held : List UInt8) (crc : UInt8 × UInt8) (size : held.length = 128)
    (data : List UInt8) (pktNo : UInt8) (short : data.length ≤ 128) :
    let payload := patch held 0 data
    (ofFields mark seqNo seqNoInv held crc size).fill data pktNo = ofFields soh pktNo (~~~pktNo) payload
      (((crcOf payload >>> 8) &&& 0xFF).toUInt8, (crcOf payload &&& 0xFF).toUInt8) (by simp [payload, size]) := by
  intro payload
  have length : payload.length = 128 := by simp [payload, size]
  have marked : (ofFields mark seqNo seqNoInv held crc size).store 0 [soh] = ofFields soh seqNo seqNoInv held crc size := by
    simp [ofFields, store, patch]
  have filled : (ofFields soh seqNo seqNoInv held crc size).store 3 data = ofFields soh seqNo seqNoInv payload crc length := by
    simp only [ofFields, store, mk.injEq]
    have front := patch_append [soh, seqNo, seqNoInv] (held ++ [crc.1, crc.2]) data
    simp only [List.length_cons, List.length_nil, List.cons_append, List.nil_append] at front
    rw [front, patch_within _ _ _ (by omega)]
  have checked (first second : UInt8) : (ofFields soh seqNo seqNoInv payload crc length).store 131 [first, second] =
      ofFields soh seqNo seqNoInv payload (first, second) length := by
    simp only [ofFields, store, mk.injEq]
    have front := patch_append (soh :: seqNo :: seqNoInv :: payload) [crc.1, crc.2] [first, second]
    simp only [List.length_cons, length, List.cons_append, patch] at front
    exact front
  have numbered (crc : UInt8 × UInt8) :
      ((ofFields soh seqNo seqNoInv payload crc length).store 1 [pktNo]).store 2 [~~~pktNo] =
        ofFields soh pktNo (~~~pktNo) payload crc length := by
    simp [ofFields, store, patch]
  rw [fill, marked, filled, crcXmodem, data_ofFields, checked, numbered]

/-- The packet sent for `data`: the rest of the payload is what the buffer held. -/
theorem fill_eq (packet : XmodemPacket) (data : List UInt8) (pktNo : UInt8) (short : data.length ≤ 128) :
    let payload := patch packet.data 0 data
    packet.fill data pktNo = ofFields soh pktNo (~~~pktNo) payload
      (((crcOf payload >>> 8) &&& 0xFF).toUInt8, (crcOf payload &&& 0xFF).toUInt8)
      (by simp [payload, packet.data_length]) := by
  obtain ⟨mark, seqNo, seqNoInv, crc, same⟩ := packet.fields
  have filled := fill_ofFields mark seqNo seqNoInv packet.data crc packet.data_length data pktNo short
  rwa [← same] at filled

section Filled

variable (packet : XmodemPacket) (data : List UInt8) (pktNo : UInt8) (short : data.length ≤ 128)
include short

theorem fill_data : (packet.fill data pktNo).data = patch packet.data 0 data := by
  rw [fill_eq packet data pktNo short, data_ofFields]

theorem fill_seqNo : (packet.fill data pktNo).seqNo = pktNo := by
  rw [fill_eq packet data pktNo short]
  rfl

theorem fill_marked : (packet.fill data pktNo).bytes.head? = some soh := by
  rw [fill_eq packet data pktNo short]
  rfl

theorem fill_intact : (packet.fill data pktNo).intact = true := by
  have payload := fill_data packet data pktNo short
  rw [fill_eq packet data pktNo short] at payload ⊢
  have crc : (ofFields soh pktNo (~~~pktNo) (patch packet.data 0 data)
      (((crcOf (patch packet.data 0 data) >>> 8) &&& 0xFF).toUInt8, (crcOf (patch packet.data 0 data) &&& 0xFF).toUInt8)
      (by simp [packet.data_length])).crcU8 =
      (((crcOf (patch packet.data 0 data) >>> 8) &&& 0xFF).toUInt8, (crcOf (patch packet.data 0 data) &&& 0xFF).toUInt8) := by
    simp only [crcU8, ofFields]
    have length : (patch packet.data 0 data).length = 128 := by simp [packet.data_length]
    generalize patch packet.data 0 data = held at length
    simp [List.getElem_append_right, length]
  simp only [intact, crcXmodem, payload, crc, crc_bytes]
  simp [seqNo, seqNoInv, ofFields]

omit short in
theorem fill_block : (packet.fill (data.take packetPayloadSize) pktNo).data.take data.length = data.take packetPayloadSize := by
  have length := packet.data_length
  have few : (data.take packetPayloadSize).length ≤ 128 := List.length_take_le _ _
  rw [fill_data _ _ _ few, patch_zero _ _ (by omega)]
  by_cases long : packetPayloadSize ≤ data.length
  · have full : (data.take packetPayloadSize).length = 128 := List.length_take_of_le long
    rw [List.drop_of_length_le (by omega), List.append_nil, List.take_take, Nat.min_eq_right long]
  · rw [List.take_of_length_le (i := packetPayloadSize) (by omega), List.take_left]

/-- A copy of a packet is the packet, whatever was sent in between under the same number. -/
theorem fill_fill : (packet.fill data pktNo).fill data pktNo = packet.fill data pktNo := by
  have payload := fill_data packet data pktNo short
  have settled : patch (patch packet.data 0 data) 0 data = patch packet.data 0 data := by
    have room : data.length ≤ packet.data.length := by simpa [packet.data_length] using short
    rw [patch_zero _ _ room, patch_zero _ _ (by simp)]
    simp
  rw [fill_eq _ data pktNo short]
  simp only [payload, settled]
  exact (fill_eq packet data pktNo short).symm

end Filled

end XmodemPacket

/-- The number of blocks a message is sent in, the last of them perhaps padded. -/
def blockCount (data : List UInt8) : Nat := (data.length + packetPayloadSize - 1) / packetPayloadSize

/-- The frame carries block number `index` of the message, counted from 0. -/
structure IsBlock (data : List UInt8) (index : Nat) (frame : Frame) : Prop where
  exists_ : index < blockCount data
  number : frame.seqNo = UInt8.ofNat (index + 1)
  payload : frame.data.take (data.drop (packetPayloadSize * index)).length =
    (data.drop (packetPayloadSize * index)).take packetPayloadSize

/-- A unit sent once for each answer, every copy followed by one read. -/
def copies (unit : List UInt8) (answers : List (Option UInt8)) : History Io :=
  answers.flatMap fun answer => puts unit ++ [hears answer]

/-- What is read in at most `tries` attempts that go on until `wanted` is heard. -/
inductive Answered (wanted : UInt8) : Nat → List (Option UInt8) → Bool → Prop where
  | spent : Answered wanted 0 [] false
  | heard {tries : Nat} : Answered wanted (tries + 1) [some wanted] true
  | other {tries : Nat} {answer : Option UInt8} {answers : List (Option UInt8)} {ok : Bool} (different : answer ≠ some wanted)
      (later : Answered wanted tries answers ok) : Answered wanted (tries + 1) (answer :: answers) ok

/-- The block loop from a packet buffer, the rest of the data and the next packet
number on: its history, the number it ends with unless it fails, and the buffer it leaves. -/
inductive SendsBlocks : XmodemPacket → List UInt8 → UInt8 → History Io → Option UInt8 → XmodemPacket → Prop where
  | done {pktBuf : XmodemPacket} {pktNo : UInt8} : SendsBlocks pktBuf [] pktNo [] (some pktNo) pktBuf
  | failed {pktBuf : XmodemPacket} {data : List UInt8} {pktNo : UInt8} {answers : List (Option UInt8)}
      (more : data ≠ []) (refused : Answered ack maxRetransmit answers false) :
      SendsBlocks pktBuf data pktNo (copies (pktBuf.fill (data.take packetPayloadSize) pktNo).bytes answers) none
        (pktBuf.fill (data.take packetPayloadSize) pktNo)
  | sent {pktBuf kept : XmodemPacket} {data : List UInt8} {pktNo : UInt8} {answers : List (Option UInt8)}
      {later : History Io} {last : Option UInt8}
      (more : data ≠ []) (acked : Answered ack maxRetransmit answers true)
      (rest : SendsBlocks (pktBuf.fill (data.take packetPayloadSize) pktNo) (data.drop packetPayloadSize) (pktNo + 1) later last kept) :
      SendsBlocks pktBuf data pktNo (copies (pktBuf.fill (data.take packetPayloadSize) pktNo).bytes answers ++ later) last kept

/-- A whole call of the transmitter: it never starts, it breaks off at a block, or it comes to the EOT. -/
inductive Transmits (pktBuf : XmodemPacket) (data : List UInt8) : History Io → Int → XmodemPacket → Prop where
  | unstarted {starts : List (Option UInt8)} (deaf : Answered charC maxRetransmit starts false) :
      Transmits pktBuf data (⟨.setTimeout timeoutStd, ()⟩ :: starts.map hears) (-1) pktBuf
  | broken {starts : List (Option UInt8)} {blocks : History Io} {kept : XmodemPacket}
      (started : Answered charC maxRetransmit starts true) (sent : SendsBlocks pktBuf data 1 blocks none kept) :
      Transmits pktBuf data (⟨.setTimeout timeoutStd, ()⟩ :: starts.map hears ++ blocks) (-1) kept
  | finished {starts answers : List (Option UInt8)} {blocks : History Io} {kept : XmodemPacket} {pktNo : UInt8} {ok : Bool}
      (started : Answered charC maxRetransmit starts true) (sent : SendsBlocks pktBuf data 1 blocks (some pktNo) kept)
      (ended : Answered ack maxRetransmit answers ok) :
      Transmits pktBuf data (⟨.setTimeout timeoutStd, ()⟩ :: starts.map hears ++ blocks ++ copies [eot] answers)
        (if ok then (pktNo.toNat - 1) * 128 else -1) kept

section Runs

variable {history : History Io}

theorem runs_puts (bytes : List UInt8) (vars kept : XmodemPacket) :
    Runs ((bytes.forM xmodemPutc).run vars) history (.ret (⟨⟩, kept)) ↔ history = puts bytes ∧ kept = vars := by
  induction bytes generalizing history with
  | nil =>
    refine (runs_pure _ _).trans ?_
    simp [puts, eq_comm]
  | cons ch bytes ih =>
    change Runs ((xmodemPutc ch >>= fun _ => bytes.forM xmodemPutc).run vars) history _ ↔ _
    rw [runs_seq]
    constructor
    · rintro ⟨⟨⟩, held, early, late, first, rest, rfl⟩
      obtain ⟨rfl, rfl⟩ := (runs_putc _ _ _).mp first
      obtain ⟨rfl, rfl⟩ := ih.mp rest
      exact ⟨rfl, rfl⟩
    · rintro ⟨rfl, rfl⟩
      exact ⟨(), _, _, _, (runs_putc _ _ _).mpr ⟨rfl, rfl⟩, ih.mpr ⟨rfl, rfl⟩, rfl⟩

theorem runs_sendPkt (data : List UInt8) (pktNo : UInt8) (vars kept : XmodemPacket) :
    Runs ((xmodemSendPkt data pktNo).run vars) history (.ret (⟨⟩, kept)) ↔
      history = puts (vars.fill data pktNo).bytes ∧ kept = vars.fill data pktNo := by
  change Runs (((vars.fill data pktNo).bytes.forM xmodemPutc).run (vars.fill data pktNo)) history _ ↔ _
  exact runs_puts _ _ _

theorem answered_ack {answer : Option UInt8} : answer.getD err = ack ↔ answer = some ack := by
  cases answer with
  | none => decide +revert
  | some ch => simp

theorem answered_start {answer : Option UInt8} : answer.getD err = charC ↔ answer = some charC := by
  cases answer with
  | none => decide +revert
  | some ch => simp

end Runs

/-- What `send` does from the buffer it finds: it puts out one unit and leaves the buffer `after`. -/
def Sends (send : Code Unit) (unit : List UInt8) (held after : XmodemPacket) : Prop :=
  ∀ history kept, Runs (send.run held) history (.ret ((), kept)) ↔ history = puts unit ∧ kept = after

theorem Sends.seq {send : Code Unit} {unit : List UInt8} {held after kept : XmodemPacket} {α : Type} {value : α}
    {history : History Io} (sends : Sends send unit held after) (rest : Unit → Code α) :
    Runs ((send >>= rest).run held) history (.ret (value, kept)) ↔
      ∃ later, history = puts unit ++ later ∧ Runs ((rest ()).run after) later (.ret (value, kept)) := by
  rw [runs_seq]
  constructor
  · rintro ⟨⟨⟩, middle, early, late, run, more, rfl⟩
    obtain ⟨rfl, rfl⟩ := (sends _ _).mp run
    exact ⟨late, rfl, more⟩
  · rintro ⟨later, rfl, more⟩
    exact ⟨(), after, _, _, (sends _ _).mpr ⟨rfl, rfl⟩, more, rfl⟩

theorem runs_sendWithRetry {send : Code Unit} {unit : List UInt8} {before after : XmodemPacket}
    (first : Sends send unit before after) (again : Sends send unit after after) (tries : Nat)
    {history : History Io} {status : Int} {kept : XmodemPacket} :
    Runs ((sendWithRetry send tries).run before) history (.ret (status, kept)) ↔
      ∃ answers ok, Answered ack tries answers ok ∧ history = copies unit answers ∧
        status = (if ok then 0 else -1) ∧ kept = if answers = [] then before else after := by
  induction tries generalizing before history with
  | zero =>
    refine (runs_pure _ _).trans ⟨?_, ?_⟩
    · rintro ⟨rfl, same⟩
      cases same
      exact ⟨[], false, .spent, rfl, rfl, rfl⟩
    · rintro ⟨answers, ok, answered, rfl, rfl, rfl⟩
      cases answered
      exact ⟨rfl, rfl⟩
  | succ tries ih =>
    rw [sendWithRetry, first.seq]
    simp only [runs_getc_seq]
    constructor
    · rintro ⟨_, rfl, answer, later, rfl, rest⟩
      split at rest
      next acked =>
        obtain rfl := answered_ack.mp acked
        obtain ⟨rfl, same⟩ := (runs_pure _ _).mp rest
        cases same
        exact ⟨[some ack], true, .heard, by simp [copies], rfl, by simp⟩
      next refused =>
        obtain ⟨answers, ok, answered, rfl, rfl, rfl⟩ := (ih again).mp rest
        exact ⟨answer :: answers, ok, .other (mt answered_ack.mpr refused) answered, by simp [copies], rfl, by simp⟩
    · rintro ⟨answers, ok, answered, rfl, rfl, rfl⟩
      cases answered with
      | heard =>
        refine ⟨_, by simp [copies], some ack, [], rfl, ?_⟩
        rw [if_pos rfl]
        exact (runs_pure _ _).mpr ⟨rfl, rfl⟩
      | @other _ answer answers _ different later =>
        refine ⟨_, by simp [copies], answer, copies unit answers, rfl, ?_⟩
        rw [if_neg (mt answered_ack.mp different)]
        exact (ih again).mpr ⟨answers, ok, later, rfl, rfl, by simp⟩

theorem runs_awaitStart (tries : Nat) {history : History Io} {started : Bool} {vars kept : XmodemPacket} :
    Runs ((awaitStart tries).run vars) history (.ret (started, kept)) ↔
      ∃ answers, Answered charC tries answers started ∧ history = answers.map hears ∧ kept = vars := by
  induction tries generalizing history with
  | zero =>
    refine (runs_pure _ _).trans ⟨?_, ?_⟩
    · rintro ⟨rfl, same⟩
      cases same
      exact ⟨[], .spent, rfl, rfl⟩
    · rintro ⟨answers, answered, rfl, rfl⟩
      cases answered
      exact ⟨rfl, rfl⟩
  | succ tries ih =>
    rw [awaitStart, runs_getc_seq]
    constructor
    · rintro ⟨answer, later, rfl, rest⟩
      simp only at rest
      split at rest
      next heard =>
        obtain rfl := answered_start.mp heard
        obtain ⟨rfl, same⟩ := (runs_pure _ _).mp rest
        cases same
        exact ⟨[some charC], .heard, rfl, rfl⟩
      next different =>
        obtain ⟨answers, answered, rfl, rfl⟩ := ih.mp rest
        exact ⟨answer :: answers, .other (mt answered_start.mpr different) answered, rfl, rfl⟩
    · rintro ⟨answers, answered, rfl, rfl⟩
      cases answered with
      | heard =>
        refine ⟨some charC, [], rfl, ?_⟩
        simp only [if_pos (answered_start.mpr (Eq.refl (some charC)))]
        exact (runs_pure _ _).mpr ⟨rfl, rfl⟩
      | @other _ answer answers _ different later =>
        refine ⟨answer, answers.map hears, rfl, ?_⟩
        simp only [if_neg (mt answered_start.mp different)]
        exact ih.mpr ⟨answers, later, rfl, rfl⟩

theorem Answered.nonempty {wanted : UInt8} {tries : Nat} {answers : List (Option UInt8)} {ok : Bool}
    (answered : Answered wanted (tries + 1) answers ok) : answers ≠ [] := by
  cases answered <;> simp

private theorem runs_pktWithRetry {data : List UInt8} {pktNo : UInt8} (short : data.length ≤ 128)
    {history : History Io} {status : Int} {vars kept : XmodemPacket} :
    Runs ((xmodemSendPktWithRetry data pktNo).run vars) history (.ret (status, kept)) ↔
      ∃ answers ok, Answered ack maxRetransmit answers ok ∧ history = copies (vars.fill data pktNo).bytes answers ∧
        status = (if ok then 0 else -1) ∧ kept = vars.fill data pktNo := by
  have first : Sends (xmodemSendPkt data pktNo) (vars.fill data pktNo).bytes vars (vars.fill data pktNo) :=
    fun _ _ => runs_sendPkt data pktNo _ _
  have again : Sends (xmodemSendPkt data pktNo) (vars.fill data pktNo).bytes (vars.fill data pktNo) (vars.fill data pktNo) := by
    intro history kept
    simpa only [vars.fill_fill data pktNo short] using runs_sendPkt data pktNo (vars.fill data pktNo) kept
  refine (runs_sendWithRetry first again maxRetransmit).trans ?_
  constructor
  · rintro ⟨answers, ok, answered, rfl, rfl, rfl⟩
    exact ⟨answers, ok, answered, rfl, rfl, if_neg answered.nonempty⟩
  · rintro ⟨answers, ok, answered, rfl, rfl, rfl⟩
    exact ⟨answers, ok, answered, rfl, rfl, (if_neg answered.nonempty).symm⟩

private theorem runs_transmitRound {data : List UInt8} {pktNo : UInt8} (more : data ≠ []) {history : History Io}
    {outcome : (List UInt8 × UInt8) ⊕ Option UInt8} {vars kept : XmodemPacket} :
    Runs ((transmitRound (data, pktNo)).run vars) history (.ret (outcome, kept)) ↔
      ∃ answers ok, Answered ack maxRetransmit answers ok ∧
        history = copies (vars.fill (data.take packetPayloadSize) pktNo).bytes answers ∧
        kept = vars.fill (data.take packetPayloadSize) pktNo ∧
        outcome = if ok then .inl (data.drop packetPayloadSize, pktNo + 1) else .inr none := by
  have taken : data.take (if data.length ≥ packetPayloadSize then packetPayloadSize else data.length) =
      data.take packetPayloadSize := by
    split
    next => rfl
    next short => rw [List.take_length, List.take_of_length_le (by omega)]
  have dropped : data.drop (if data.length ≥ packetPayloadSize then packetPayloadSize else data.length) =
      data.drop packetPayloadSize := by
    split
    next => rfl
    next short => rw [List.drop_length, List.drop_of_length_le (by omega)]
  have short : (data.take packetPayloadSize).length ≤ 128 := List.length_take_le _ _
  have length : data.length ≠ 0 := by simpa using more
  simp only [transmitRound, length, taken, dropped, if_false]
  rw [runs_seq]
  constructor
  · rintro ⟨status, held, early, late, sent, rest, rfl⟩
    obtain ⟨answers, ok, answered, rfl, rfl, rfl⟩ := (runs_pktWithRetry short).mp sent
    cases ok with
    | true | false =>
      obtain ⟨rfl, same⟩ := (runs_pure _ _).mp rest
      cases same
      exact ⟨answers, _, answered, by simp, rfl, rfl⟩
  · rintro ⟨answers, ok, answered, rfl, rfl, rfl⟩
    refine ⟨_, _, _, [], (runs_pktWithRetry short).mpr ⟨answers, ok, answered, rfl, rfl, rfl⟩, ?_, by simp⟩
    cases ok with
    | true | false => exact (runs_pure _ _).mpr ⟨rfl, rfl⟩

private theorem runs_transmitEnd {pktNo : UInt8} {history : History Io}
    {outcome : (List UInt8 × UInt8) ⊕ Option UInt8} {vars kept : XmodemPacket} :
    Runs ((transmitRound ([], pktNo)).run vars) history (.ret (outcome, kept)) ↔
      history = [] ∧ outcome = .inr (some pktNo) ∧ kept = vars := by
  refine (runs_pure _ _).trans ?_
  simp [eq_comm]

theorem rounds_transmit {data : List UInt8} {pktNo : UInt8} {history : History Io} {last : Option UInt8}
    {vars kept : XmodemPacket} :
    Static.Rounds transmitRound (data, pktNo) vars history last kept ↔ SendsBlocks vars data pktNo history last kept := by
  constructor
  · intro rounds
    generalize same : (data, pktNo) = state at rounds
    induction rounds generalizing data pktNo with
    | leave run =>
      subst same
      by_cases empty : data = []
      · subst empty
        obtain ⟨rfl, same, rfl⟩ := runs_transmitEnd.mp run
        cases same
        exact .done
      · obtain ⟨answers, ok, answered, rfl, rfl, same⟩ := (runs_transmitRound empty).mp run
        cases ok with
        | true => cases same
        | false =>
          cases same
          exact .failed empty answered
    | again run _ ih =>
      subst same
      by_cases empty : data = []
      · subst empty
        obtain ⟨_, same, _⟩ := runs_transmitEnd.mp run
        cases same
      · obtain ⟨answers, ok, answered, rfl, rfl, same⟩ := (runs_transmitRound empty).mp run
        cases ok with
        | true =>
          cases same
          exact .sent empty answered (ih rfl)
        | false => cases same
  · intro sends
    induction sends with
    | done => exact .leave (runs_transmitEnd.mpr ⟨rfl, rfl, rfl⟩)
    | failed more refused => exact .leave ((runs_transmitRound more).mpr ⟨_, false, refused, rfl, rfl, rfl⟩)
    | sent more acked _ ih => exact .again ((runs_transmitRound more).mpr ⟨_, true, acked, rfl, rfl, rfl⟩) ih

private theorem runs_eotWithRetry {history : History Io} {status : Int} {vars kept : XmodemPacket} :
    Runs ((xmodemSendByteWithRetry eot).run vars) history (.ret (status, kept)) ↔
      ∃ answers ok, Answered ack maxRetransmit answers ok ∧ history = copies [eot] answers ∧
        status = (if ok then 0 else -1) ∧ kept = vars := by
  have eots : Sends (xmodemPutc eot) [eot] vars vars := fun _ _ => runs_putc _ _ eot
  simpa [xmodemSendByteWithRetry] using @runs_sendWithRetry _ _ _ _ eots eots maxRetransmit history status kept

/-- The transmitter does what `Transmits` says and nothing else, and all of it can happen. -/
theorem runs_transmitPackage (data : List UInt8) (pktBuf kept : XmodemPacket) (history : History Io) (retv : Int) :
    Runs ((xmodemTransmitPackage data).run pktBuf) history (.ret (retv, kept)) ↔
      Transmits pktBuf data history retv kept := by
  rw [xmodemTransmitPackage, runs_setTimeout_seq]
  constructor
  · rintro ⟨_, rfl, run⟩
    obtain ⟨started, held, early, late, waits, rest, rfl⟩ := (runs_seq _ _ _ _ _).mp run
    obtain ⟨starts, answered, rfl, rfl⟩ := (runs_awaitStart _).mp waits
    cases started with
    | false =>
      obtain ⟨rfl, same⟩ := (runs_pure _ _).mp rest
      cases same
      simpa using Transmits.unstarted answered
    | true =>
      obtain ⟨sent, held, early, late, looped, rest, rfl⟩ := (runs_seq _ _ _ _ _).mp rest
      have blocks := rounds_transmit.mp ((runs_loop _ _ _ _ _).mp looped)
      cases sent with
      | none =>
        obtain ⟨rfl, same⟩ := (runs_pure _ _).mp rest
        cases same
        simpa using Transmits.broken answered blocks
      | some pktNo =>
        obtain ⟨status, held, early, late, ending, rest, rfl⟩ := (runs_seq _ _ _ _ _).mp rest
        obtain ⟨answers, ok, ended, rfl, rfl, rfl⟩ := runs_eotWithRetry.mp ending
        have whole := Transmits.finished answered blocks ended
        cases ok with
        | true | false =>
          obtain ⟨rfl, same⟩ := (runs_pure _ _).mp rest
          cases same
          simpa using whole
  · intro transmits
    cases transmits with
    | unstarted deaf =>
      refine ⟨_, rfl, (runs_seq _ _ _ _ _).mpr ⟨false, pktBuf, _, [],
        (runs_awaitStart _).mpr ⟨_, deaf, rfl, rfl⟩, (runs_pure _ _).mpr ⟨rfl, rfl⟩, by simp⟩⟩
    | broken started sent =>
      refine ⟨_, by simp; rfl, (runs_seq _ _ _ _ _).mpr ⟨true, pktBuf, _, _,
        (runs_awaitStart _).mpr ⟨_, started, rfl, rfl⟩, ?_, rfl⟩⟩
      exact (runs_seq _ _ _ _ _).mpr ⟨none, _, _, [], (runs_loop _ _ _ _ _).mpr (rounds_transmit.mpr sent),
        (runs_pure _ _).mpr ⟨rfl, rfl⟩, by simp⟩
    | @finished starts answers blocks _ pktNo ok started sent ended =>
      refine ⟨starts.map hears ++ (blocks ++ copies [eot] answers), by simp, (runs_seq _ _ _ _ _).mpr ⟨true, pktBuf, _, _,
        (runs_awaitStart _).mpr ⟨_, started, rfl, rfl⟩, ?_, rfl⟩⟩
      refine (runs_seq _ _ _ _ _).mpr ⟨some pktNo, _, _, _, (runs_loop _ _ _ _ _).mpr (rounds_transmit.mpr sent), ?_, rfl⟩
      refine (runs_seq _ _ _ _ _).mpr ⟨_, _, _, [], runs_eotWithRetry.mpr ⟨answers, ok, ended, rfl, rfl, rfl⟩, ?_, by simp⟩
      cases ok with
      | true | false => exact (runs_pure _ _).mpr ⟨rfl, rfl⟩

end DfuUtilQda.Xmodem

import DfuUtilQda.Interaction.Complete
import DfuUtilQda.Xmodem.Receiver

/-! What one call of `xmodem_read_pkt` takes from the line. The cases are those
of the bytes on the wire, not those of the code: a timeout, an EOT, line noise, a
frame cut short, or a whole frame, which alone is checked and classified. -/

namespace DfuUtilQda.Xmodem
open Interaction Machine

/-- The answers to `xmodem_getc`, in order. -/
def outcomes (history : History Io) : List (Option UInt8) :=
  history.filterMap fun
    | ⟨.getc, answer⟩ => some answer
    | _ => none

/-- The bytes given to `xmodem_putc`, in order. -/
def emitted (history : History Io) : List UInt8 :=
  history.filterMap fun
    | ⟨.putc ch, _⟩ => some ch
    | _ => none

def Sound (history : History Io) : Prop := ∀ event ∈ history, event.op ≠ .fault

section Projections

variable (first second : History Io) (answer : Option UInt8) (ch : UInt8) (ms : Nat)

@[simp] theorem outcomes_append : outcomes (first ++ second) = outcomes first ++ outcomes second := List.filterMap_append
@[simp] theorem outcomes_nil : outcomes [] = [] := rfl
@[simp] theorem outcomes_getc : outcomes (⟨.getc, answer⟩ :: second) = answer :: outcomes second := rfl
@[simp] theorem outcomes_putc : outcomes (⟨.putc ch, ()⟩ :: second) = outcomes second := rfl
@[simp] theorem outcomes_timeout : outcomes (⟨.setTimeout ms, ()⟩ :: second) = outcomes second := rfl

@[simp] theorem emitted_append : emitted (first ++ second) = emitted first ++ emitted second := List.filterMap_append
@[simp] theorem emitted_nil : emitted [] = [] := rfl
@[simp] theorem emitted_getc : emitted (⟨.getc, answer⟩ :: second) = emitted second := rfl
@[simp] theorem emitted_putc : emitted (⟨.putc ch, ()⟩ :: second) = ch :: emitted second := rfl
@[simp] theorem emitted_timeout : emitted (⟨.setTimeout ms, ()⟩ :: second) = emitted second := rfl

@[simp] theorem sound_nil : Sound [] := by simp [Sound]
@[simp] theorem sound_append : Sound (first ++ second) ↔ Sound first ∧ Sound second := by
  simp [Sound, or_imp, forall_and]
@[simp] theorem sound_cons (event : Event Io) : Sound (event :: second) ↔ event.op ≠ .fault ∧ Sound second := by
  simp [Sound]

end Projections

/-- Bytes put out one after the other. -/
def puts (bytes : List UInt8) : History Io := bytes.map fun ch => ⟨.putc ch, ()⟩

/-- One read and what came of it. -/
def hears (answer : Option UInt8) : Event Io := ⟨.getc, answer⟩

@[simp] theorem outcomes_puts (bytes : List UInt8) : outcomes (puts bytes) = [] := by
  induction bytes with
  | nil => rfl
  | cons ch bytes ih => exact ih

@[simp] theorem emitted_puts (bytes : List UInt8) : emitted (puts bytes) = bytes := by
  induction bytes with
  | nil => rfl
  | cons ch bytes ih => exact congrArg (ch :: ·) ih

@[simp] theorem outcomes_hears (answer : Option UInt8) (history : History Io) :
    outcomes (hears answer :: history) = answer :: outcomes history := rfl

@[simp] theorem emitted_hears (answer : Option UInt8) (history : History Io) :
    emitted (hears answer :: history) = emitted history := rfl

@[simp] theorem outcomes_heard (answers : List (Option UInt8)) : outcomes (answers.map hears) = answers := by
  induction answers with
  | nil => rfl
  | cons answer answers ih => exact congrArg (answer :: ·) ih

@[simp] theorem emitted_heard (answers : List (Option UInt8)) : emitted (answers.map hears) = [] := by
  induction answers with
  | nil => rfl
  | cons answer answers ih => exact ih

section Runs

variable {history : History Io} {α : Type} (vars kept : XmodemPacket) (value : α)

theorem runs_getc_seq (rest : Option UInt8 → Code α) :
    Runs ((xmodemGetc >>= rest).run vars) history (.ret (value, kept)) ↔
      ∃ answer later, history = hears answer :: later ∧ Runs ((rest answer).run vars) later (.ret (value, kept)) :=
  runs_perform_seq (S := Io) .getc rest vars kept value

theorem runs_setTimeout_seq (ms : Nat) (rest : Unit → Code α) :
    Runs ((xmodemSetTimeout ms >>= rest).run vars) history (.ret (value, kept)) ↔
      ∃ later, history = ⟨.setTimeout ms, ()⟩ :: later ∧ Runs ((rest ()).run vars) later (.ret (value, kept)) := by
  refine (runs_perform_seq (S := Io) (.setTimeout ms) rest vars kept value).trans ?_
  exact ⟨fun ⟨_, later, same, run⟩ => ⟨later, same, run⟩, fun ⟨later, same, run⟩ => ⟨(), later, same, run⟩⟩

theorem runs_putc (ch : UInt8) :
    Runs ((xmodemPutc ch).run vars) history (.ret ((), kept)) ↔ history = puts [ch] ∧ kept = vars :=
  runs_perform (S := Io) (.putc ch) vars kept ()

end Runs

/-- A packet as it stands on the wire, SOH in front. -/
structure Frame extends XmodemPacket where
  marked : bytes.head? = some soh

theorem Frame.ext_bytes {frame other : Frame} (same : frame.bytes = other.bytes) : frame = other := by
  obtain ⟨⟨bytes, size⟩, marked⟩ := frame
  obtain ⟨⟨bytes', size'⟩, marked'⟩ := other
  cases same
  rfl

/-- What the receiver decides about a whole frame. -/
def XmodemPacket.verdict (packet : XmodemPacket) (expSeqNo : UInt8) (len : Nat) : Status :=
  if packet.intact = false then .err
  else if (packet.seqNo.toNat : Int) = expSeqNo.toNat - 1 then .dup
  else if packet.seqNo ≠ expSeqNo then .can
  else if len < packetPayloadSize then .can
  else .soh

/-- `ReadsPkt expSeqNo len heard status taken`: hearing `heard` makes a reader that
expects number `expSeqNo` and has room for `len` bytes report `status` and take the frames `taken`. -/
inductive ReadsPkt (expSeqNo : UInt8) (len : Nat) : List (Option UInt8) → Status → List Frame → Prop where
  | timeout : ReadsPkt expSeqNo len [none] .err []
  | eot : ReadsPkt expSeqNo len [some eot] .eot []
  | noise (ch : UInt8) (bytes : List UInt8) (unmarked : ch ≠ soh) (running : ch ≠ Xmodem.eot) :
      ReadsPkt expSeqNo len (some ch :: bytes.map some ++ [none]) .err []
  | short (bytes : List UInt8) (cut : bytes.length < 132) :
      ReadsPkt expSeqNo len (some soh :: bytes.map some ++ [none]) .err []
  | refused (frame : Frame) (verdict : frame.verdict expSeqNo len ≠ .soh) :
      ReadsPkt expSeqNo len (frame.bytes.map some) (frame.verdict expSeqNo len) []
  | taken (frame : Frame) (verdict : frame.verdict expSeqNo len = .soh) :
      ReadsPkt expSeqNo len (frame.bytes.map some) .soh [frame]

theorem XmodemPacket.data_length (packet : XmodemPacket) : packet.data.length = 128 := by
  simp [XmodemPacket.data, packetPayloadSize, packet.size]

theorem XmodemPacket.verdict_soh {packet : XmodemPacket} {expSeqNo : UInt8} {len : Nat} :
    packet.verdict expSeqNo len = .soh ↔ packet.intact = true ∧ packet.seqNo = expSeqNo ∧ packetPayloadSize ≤ len := by
  unfold XmodemPacket.verdict
  split
  next damaged => simp [damaged]
  next intact =>
    split
    next previous =>
      have different : packet.seqNo ≠ expSeqNo := by rintro rfl; omega
      simp [different]
    next other =>
      split
      next wrong => simp [wrong]
      next expected =>
        split
        next full => simp [full]
        next room => simpa [intact, Nat.le_of_not_lt room] using expected

theorem XmodemPacket.intact_seqNo {packet : XmodemPacket} (intact : packet.intact = true) :
    packet.seqNo = ~~~packet.seqNoInv := by
  simp only [XmodemPacket.intact, Bool.and_eq_true, decide_eq_true_eq] at intact
  exact intact.1

theorem XmodemPacket.verdict_dup {packet : XmodemPacket} {expSeqNo : UInt8} {len : Nat} (intact : packet.intact = true)
    (previous : (packet.seqNo.toNat : Int) = expSeqNo.toNat - 1) : packet.verdict expSeqNo len = .dup := by
  simp [XmodemPacket.verdict, intact, previous]

/-- The bytes after SOH decide everything; the buffer's own first byte is never looked at. -/
theorem XmodemPacket.ignores_mark (packet : XmodemPacket) (bytes : List UInt8) (size : bytes.length = 132) :
    let frame : XmodemPacket := ⟨soh :: bytes, by simp [size]⟩
    (packet.store 1 bytes).data = frame.data ∧
      ∀ expSeqNo len, (packet.store 1 bytes).verdict expSeqNo len = frame.verdict expSeqNo len := by
  obtain ⟨held, length⟩ := packet
  cases held with
  | nil => simp at length
  | cons first held =>
    have layout : (XmodemPacket.mk (first :: held) length).store 1 bytes = ⟨first :: bytes, by simp [size]⟩ := by
      simp only [XmodemPacket.store, XmodemPacket.mk.injEq]
      rw [patch_eq _ _ _ (by omega), List.drop_of_length_le (by omega)]
      simp
    rw [layout]
    exact ⟨rfl, fun _ _ => rfl⟩

private theorem readRest_spec (count start : Nat) (pktBuf : XmodemPacket) (whole : start + count = 133) (inside : 0 < start) :
    wp Sound ((readRest count).run pktBuf) (fun result now =>
      emitted now = [] ∧ ∃ bytes : List UInt8,
        (result.1 = true ∧ bytes.length = count ∧ outcomes now = bytes.map some ∧
          result.2 = pktBuf.store start bytes) ∨
        (result.1 = false ∧ bytes.length < count ∧ outcomes now = bytes.map some ++ [none])) [] := by
  induction count generalizing start pktBuf with
  | zero => simp [readRest, XmodemPacket.store]
  | succ count ih =>
    simp only [readRest, StateT.run_bind, wp_seq, wp_getc, List.nil_append]
    refine ⟨sound_nil, fun answer => ⟨by simp, ?_⟩⟩
    cases answer with
    | none => exact (wp_ret _).mpr ⟨by simp, rfl, [], Or.inr (by simp)⟩
    | some ch =>
      simp only [StateT.run_bind, StateT.run_modify, wp_seq, wp_pure]
      refine ⟨by simp, (ih (start + 1) _ (by omega) (by omega)).frame (fun later safe => by simpa using safe) ?_⟩
      rintro ⟨complete, held⟩ later safe ⟨silent, bytes, ⟨rfl, length, heard, rfl⟩ | ⟨rfl, length, heard⟩⟩
      · refine ⟨by simpa using silent, ch :: bytes, Or.inl ⟨rfl, by simp [length], by simp [heard], ?_⟩⟩
        obtain rfl : start = 132 - count := by omega
        simp only [XmodemPacket.store, patch_patch]
      · exact ⟨by simpa using silent, ch :: bytes, Or.inr ⟨rfl, by simp [length], by simp [heard]⟩⟩

private theorem discard_spec (pktBuf : XmodemPacket) :
    wp Sound (Xmodem.discard.run pktBuf) (fun _ now =>
      emitted now = [] ∧ ∃ bytes : List UInt8, outcomes now = bytes.map some ++ [none]) [] := by
  apply wp.static_loop (fun _ _ now => Sound now ∧ emitted now = [] ∧ ∃ bytes : List UInt8, outcomes now = bytes.map some)
  · exact ⟨by simp, rfl, [], rfl⟩
  · intro _ vars now ⟨safe, silent, bytes, heard⟩
    simp only [StateT.run_bind, wp_seq, wp_getc]
    refine ⟨safe, fun answer => ⟨by simp [safe], ?_⟩⟩
    cases answer with
    | none => exact (wp_ret _).mpr ⟨by simp [safe], by simp [silent], bytes, by simp [heard]⟩
    | some ch => exact (wp_ret _).mpr ⟨by simp [safe], by simp [safe], by simp [silent], bytes ++ [ch], by simp [heard]⟩

/-- The caller's buffer after a packet read: unchanged, or with one payload stored. -/
def Stores (buf : List UInt8) (offset : Int) (taken : List Frame) (after : List UInt8) : Prop :=
  taken = [] ∧ after = buf ∨ ∃ frame, taken = [frame] ∧ memcpy buf offset frame.data = some after

theorem checkPkt_run (expSeqNo : UInt8) (buf : List UInt8) (offset : Int) (len : Nat) (held : XmodemPacket) :
    (checkPkt expSeqNo buf offset len).run held =
      if held.verdict expSeqNo len = .soh then
        match memcpy buf offset held.data with
        | some after => pure ((.soh, after), held)
        | none => (fault : Code (Status × List UInt8)).run held
      else pure ((held.verdict expSeqNo len, buf), held) := by
  rw [checkPkt, StateT.run_bind, StateT.run_get, pure_bind]
  unfold XmodemPacket.verdict
  split
  next => rfl
  next =>
  split
  next => rfl
  next =>
  split
  next => rfl
  next =>
  split
  next => rfl
  next =>
    rw [if_pos rfl]
    change StateT.run (match memcpy buf offset held.data with | some buf => _ | none => _) held = _
    cases memcpy buf offset held.data <;> rfl

private theorem checkPkt_spec (expSeqNo : UInt8) (buf : List UInt8) (offset : Int) (len : Nat) (pktBuf : XmodemPacket)
    (bytes : List UInt8) (length : bytes.length = 132) (roomy : Prop)
    (fits : roomy → packetPayloadSize ≤ len → 0 ≤ offset ∧ offset + packetPayloadSize ≤ buf.length)
    (history : History Io) (safe : Sound history) (silent : emitted history = [])
    (heard : outcomes history = some soh :: bytes.map some) :
    wp (fun now => roomy → Sound now) ((checkPkt expSeqNo buf offset len).run (pktBuf.store 1 bytes)) (fun result now =>
      emitted now = [] ∧ ∃ taken, ReadsPkt expSeqNo len (outcomes now) result.1.1 taken ∧
        Stores buf offset taken result.1.2) history := by
  obtain ⟨payload, decided⟩ := pktBuf.ignores_mark bytes length
  let frame : Frame := ⟨⟨soh :: bytes, by simp [length]⟩, rfl⟩
  have onWire : outcomes history = frame.bytes.map some := heard
  rw [checkPkt_run, payload, decided expSeqNo len]
  split
  next verdict =>
    split
    next after stored =>
      exact (wp_pure _).mpr ⟨fun _ => safe, silent, [frame], onWire ▸ .taken frame verdict, Or.inr ⟨frame, rfl, stored⟩⟩
    next overrun =>
      refine (wp_fault _ _).mpr ⟨fun _ => safe, fun roomy => ?_⟩
      have inside := fits roomy (XmodemPacket.verdict_soh.mp verdict).2.2
      obtain ⟨after, stored⟩ := memcpy_fits buf offset frame.data (by rwa [frame.data_length])
      rw [stored] at overrun
      cases overrun
  next verdict =>
    exact (wp_pure _).mpr ⟨fun _ => safe, silent, [], onWire ▸ .refused frame verdict, Or.inl ⟨rfl, rfl⟩⟩

theorem xmodemReadPkt_spec (expSeqNo : UInt8) (buf : List UInt8) (offset : Int) (len : Nat) (pktBuf : XmodemPacket)
    (roomy : Prop) (fits : roomy → packetPayloadSize ≤ len → 0 ≤ offset ∧ offset + packetPayloadSize ≤ buf.length) :
    wp (fun now => roomy → Sound now) ((xmodemReadPkt expSeqNo buf offset len).run pktBuf) (fun result now =>
      emitted now = [] ∧ ∃ taken, ReadsPkt expSeqNo len (outcomes now) result.1.1 taken ∧
        Stores buf offset taken result.1.2) [] := by
  simp only [xmodemReadPkt, StateT.run_bind, wp_seq, wp_getc, List.nil_append]
  refine ⟨fun _ => sound_nil, fun answer => ⟨fun _ => by simp, ?_⟩⟩
  cases answer with
  | none => exact (wp_pure _).mpr ⟨fun _ => by simp, rfl, [], .timeout, Or.inl ⟨rfl, rfl⟩⟩
  | some cmd =>
    simp only
    split
    next marked =>
      subst marked
      rw [StateT.run_bind, wp_seq]
      refine (readRest_spec 132 1 pktBuf rfl Nat.one_pos).frame (fun later safe _ => by simpa using safe) ?_
      rintro ⟨complete, held⟩ later safe ⟨silent, bytes, ⟨rfl, length, heard, rfl⟩ | ⟨rfl, length, heard⟩⟩
      · exact checkPkt_spec expSeqNo buf offset len pktBuf bytes length roomy fits _ (by simpa using safe)
          (by simpa using silent) (by simpa using heard)
      · exact (wp_pure _).mpr ⟨fun _ => by simpa using safe, by simpa using silent, [],
          by simpa [heard] using ReadsPkt.short bytes length, Or.inl ⟨rfl, rfl⟩⟩
    next unmarked =>
      split
      next ended => subst ended; exact (wp_pure _).mpr ⟨fun _ => by simp, rfl, [], .eot, Or.inl ⟨rfl, rfl⟩⟩
      next running =>
        simp only [StateT.run_bind, wp_seq, wp_setTimeout]
        refine ⟨fun _ => by simp, fun _ => by simp, (discard_spec pktBuf).frame (fun later safe _ => by simpa using safe) ?_⟩
        rintro ⟨_, held⟩ later safe ⟨silent, bytes, heard⟩
        refine ⟨fun _ => by simpa using safe, fun _ => by simpa using safe,
          (wp_pure _).mpr ⟨fun _ => by simpa using safe, by simpa using silent, [], ?_, Or.inl ⟨rfl, rfl⟩⟩⟩
        simpa [heard] using ReadsPkt.noise cmd bytes unmarked running

end DfuUtilQda.Xmodem

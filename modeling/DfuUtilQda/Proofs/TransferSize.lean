import DfuUtilQda.Proofs.DeviceIdentity
import DfuUtilQda.Proofs.StatusLoop

/-! The transfer size on its way to the device: from the command line or the device's
descriptor to the 16-bit length of a request. Nothing in `main` keeps it within 16 bits. -/

namespace DfuUtilQda.Dfu
open Interaction Machine Qda Host

/-- The DNLOAD requests the device acknowledged. -/
def accepted (exchanges : List Exchange) : List DnloadReq :=
  exchanges.filterMap fun exchange => if exchange.acknowledged then dnload? exchange else none

/-- The bytes in those requests. -/
def acceptedBytes (exchanges : List Exchange) : Nat := ((accepted exchanges).map fun req => req.data.length).sum

variable (file : DfuFile) (xferSize : Int)

/-- The bytes counted as sent are those the device has acknowledged. -/
structure Counts (exchanges : List Exchange) (phase : Phase) : Prop where
  nonneg : 0 ≤ (progress file xferSize phase.blocks).bytesSent
  bytes : (progress file xferSize phase.blocks).bytesSent = acceptedBytes exchanges

/-- The DNLOAD that follows some exchanges says how long it is, and while there is a block to be
sent, that is the block's length and the number of bytes sent grows by it. -/
def Kept16 (before : List Exchange) (req : DnloadReq) : Prop :=
  req.dataLen.toNat = req.data.length ∧
    ∃ k, phaseAfter file xferSize before = .ready k ∧ (More file xferSize k →
      (req.dataLen.toNat : Int) = chunkSize file xferSize (progress file xferSize k) ∧
      (progress file xferSize (k + 1)).bytesSent = (progress file xferSize k).bytesSent + req.data.length ∧
      0 < req.data.length)

/-- Every UPLOAD asks for the transfer size, and every DNLOAD has the length it should have. -/
def Unchanged (exchanges : List Exchange) : Prop :=
  ∀ before exchange after, exchanges = before ++ exchange :: after →
    (exchange.type = qdaPktDfuUploadReq → (leAt exchange.request 4 2 : Int) = xferSize) ∧
    ∀ req, dnload? exchange = some req → Kept16 file xferSize before req

/-- What `main` does with a session. -/
def Session.goOn (session : Session) : Host.Code Int := do
  transfer session
  finish session

/-- No length changes between the call of a transfer routine and the requests. -/
structure LengthsKept (session : Session) (xferSize : Int) (held : QdaBuf) : Prop where
  range : 1 ≤ xferSize ∧ xferSize ≤ 65535
  requests : ∀ now rest, Runs (session.goOn.run held) now rest → Unchanged session.file xferSize (dialogue now)
  counted : ∀ now value kept, Runs ((dfuloadDoDnload xferSize session.file).run held) now (.ret (value, kept)) →
    value = acceptedBytes (dialogue now)

section Blocks

variable {file : DfuFile} {xferSize : Int} {exchanges : List Exchange} {exchange : Exchange} {phase : Phase} {k : Nat}

/-- What a block adds to the bytes sent, in whatever state the file is. -/
theorem next_block (range : 1 ≤ xferSize ∧ xferSize ≤ 65535) (nonneg : 0 ≤ (progress file xferSize k).bytesSent)
    (more : More file xferSize k) :
    ((blockLength file xferSize k).toNat : Int) = chunkSize file xferSize (progress file xferSize k) ∧
    0 < (blockLength file xferSize k).toNat ∧
    (progress file xferSize (k + 1)).bytesSent = (progress file xferSize k).bytesSent + (blockLength file xferSize k).toNat := by
  have below : (progress file xferSize k).bytesSent < expectedSize file := more
  have most : expectedSize file < 2 ^ 31 := (toInt_range _).2
  have left : toInt (expectedSize file - (progress file xferSize k).bytesSent) =
      expectedSize file - (progress file xferSize k).bytesSent := by
    apply toInt_of_range
    · omega
    · omega
  have chunk : chunkSize file xferSize (progress file xferSize k) =
      if expectedSize file - (progress file xferSize k).bytesSent < xferSize then
        expectedSize file - (progress file xferSize k).bytesSent else xferSize := by
    rw [← left]
    rfl
  have bounds : 1 ≤ chunkSize file xferSize (progress file xferSize k) ∧
      chunkSize file xferSize (progress file xferSize k) ≤ xferSize ∧
      (progress file xferSize k).bytesSent + chunkSize file xferSize (progress file xferSize k) ≤ expectedSize file := by
    rw [chunk]
    split <;> omega
  have length : ((blockLength file xferSize k).toNat : Int) = chunkSize file xferSize (progress file xferSize k) := by
    apply toNat_ofInt
    · omega
    · omega
  have next : (progress file xferSize (k + 1)).bytesSent =
      toInt ((progress file xferSize k).bytesSent + chunkSize file xferSize (progress file xferSize k)) := rfl
  refine ⟨length, by omega, ?_⟩
  rw [next, length]
  apply toInt_of_range
  · omega
  · omega

theorem accepted_snoc : acceptedBytes (exchanges ++ [exchange]) = acceptedBytes exchanges +
    if exchange.acknowledged then ((dnload? exchange).map fun req => req.data.length).getD 0 else 0 := by
  by_cases taken : exchange.acknowledged
  · cases found : dnload? exchange <;> simp [acceptedBytes, accepted, taken, found]
  · simp [acceptedBytes, accepted, taken]

theorem Phase.Asks.decoded (asked : phase.Asks file xferSize exchange.request) :
    (∃ k req, phase = .ready k ∧ dnload? exchange = some req ∧ req.dataLen.toNat = req.data.length ∧
      (More file xferSize k → req.dataLen = blockLength file xferSize k) ∧ (¬More file xferSize k → req.data = [])) ∨
    ((∀ k, phase ≠ .ready k) ∧ dnload? exchange = none) := by
  obtain ⟨request, response⟩ := exchange
  cases phase with
  | ready k =>
    left
    simp only [Phase.Asks] at asked
    by_cases more : More file xferSize k
    · rw [if_pos more] at asked
      obtain ⟨_, bytes, loaded, rfl⟩ := asked
      exact ⟨k, _, rfl, dnload_request _ _ _ _, (Pointer.load_length loaded).symm, fun _ => rfl, fun all => absurd more all⟩
    · rw [if_neg more] at asked
      subst asked
      exact ⟨k, _, rfl, dnload_request _ _ _ _, rfl, fun some_ => absurd some_ more, fun _ => rfl⟩
  | polling | manifesting =>
    cases asked
    exact .inr ⟨by simp, dnload_getstatus response⟩
  | finished | stopped | aborted => exact asked.elim

theorem Phase.step_blocks : (phase.step file xferSize exchange).blocks = phase.blocks ∨
    ∃ k, phase = .ready k ∧ More file xferSize k ∧ exchange.acknowledged ∧
      (phase.step file xferSize exchange).blocks = k + 1 := by
  cases phase with
  | ready k =>
    simp only [Phase.step]
    by_cases more : More file xferSize k
    · rw [if_pos more]
      by_cases taken : exchange.acknowledged
      · rw [if_pos taken]
        exact .inr ⟨k, rfl, more, taken, rfl⟩
      · rw [if_neg taken]
        exact .inl rfl
    · rw [if_neg more]
      left
      split <;> rfl
  | polling k =>
    left
    simp only [Phase.step]
    repeat' split
    all_goals rfl
  | manifesting k =>
    left
    simp only [Phase.step]
    repeat' split
    all_goals rfl
  | finished | stopped | aborted => exact .inl rfl

theorem Counts.step (range : 1 ≤ xferSize ∧ xferSize ≤ 65535) (counts : Counts file xferSize exchanges phase)
    (asked : phase.Asks file xferSize exchange.request) :
    Counts file xferSize (exchanges ++ [exchange]) (phase.step file xferSize exchange) := by
  obtain ⟨nonneg, bytes⟩ := counts
  have grown : ((progress file xferSize (phase.step file xferSize exchange).blocks).bytesSent =
      acceptedBytes (exchanges ++ [exchange])) := by
    rw [accepted_snoc]
    obtain ⟨k, req, rfl, found, whole, some_, none_⟩ | ⟨other, nothing⟩ := asked.decoded
    · obtain same | ⟨j, here, more, taken, next⟩ := @Phase.step_blocks file xferSize exchange (.ready k)
      · rw [same, bytes, found]
        by_cases taken : exchange.acknowledged
        · have all : ¬More file xferSize k := by
            intro more
            simp only [Phase.step, if_pos more, if_pos taken, Phase.blocks] at same
            omega
          rw [if_pos taken, Option.map_some, Option.getD_some, none_ all]
          rfl
        · rw [if_neg taken]
          rfl
      · cases here
        obtain ⟨_, _, sum⟩ := @next_block file xferSize k range nonneg more
        rw [next, sum, if_pos taken, found, Option.map_some, Option.getD_some, ← whole, some_ more, Nat.cast_add, ← bytes]
        rfl
    · obtain same | ⟨j, here, _, _, _⟩ := @Phase.step_blocks file xferSize exchange phase
      · rw [same, bytes, nothing]
        by_cases taken : exchange.acknowledged
        · rw [if_pos taken]
          rfl
        · rw [if_neg taken]
          rfl
      · exact absurd here (other j)
  refine ⟨?_, grown⟩
  rw [grown]
  exact Int.natCast_nonneg _

theorem Download.counts (range : 1 ≤ xferSize ∧ xferSize ≤ 65535) (download : Download file xferSize exchanges) :
    Counts file xferSize exchanges (phaseAfter file xferSize exchanges) := by
  induction exchanges using List.reverseRecOn with
  | nil => exact ⟨Int.le_refl 0, rfl⟩
  | append_singleton front last ih =>
    obtain ⟨earlier, asked⟩ := download.init
    rw [phaseAfter_snoc]
    exact (ih earlier).step range asked

theorem Download.kept16 (range : 1 ≤ xferSize ∧ xferSize ≤ 65535) {before after : List Exchange} {req : DnloadReq}
    (download : Download file xferSize (before ++ exchange :: after)) (found : dnload? exchange = some req) :
    Kept16 file xferSize before req := by
  have asked := download before exchange after rfl
  have counts := download.front.counts range
  obtain ⟨k, decoded, ready, same, whole, some_, _⟩ | ⟨_, nothing⟩ := asked.decoded
  · rw [found] at same
    cases same
    refine ⟨whole, k, ready, ?_⟩
    intro more
    have nonneg := counts.nonneg
    rw [ready] at nonneg
    obtain ⟨length, positive, sum⟩ := next_block range nonneg more
    rw [← whole, some_ more]
    exact ⟨length, sum, positive⟩
  · rw [found] at nothing
    cases nothing

theorem Phase.Asks.no_upload (asked : phase.Asks file xferSize exchange.request) : exchange.type ≠ qdaPktDfuUploadReq := by
  obtain ⟨request, response⟩ := exchange
  cases phase with
  | ready k =>
    simp only [Phase.Asks] at asked
    by_cases more : More file xferSize k
    · rw [if_pos more] at asked
      obtain ⟨_, bytes, _, rfl⟩ := asked
      rw [dnloadRequest, type_packet]
      decide
    · rw [if_neg more] at asked
      rw [asked, dnloadRequest, type_packet]
      decide
  | polling | manifesting =>
    obtain rfl : request = getstatusRequest := asked
    rw [getstatusRequest, type_packet]
    decide
  | finished | stopped | aborted => exact asked.elim

theorem Download.unchanged (range : 1 ≤ xferSize ∧ xferSize ≤ 65535) (download : Download file xferSize exchanges) :
    Unchanged file xferSize exchanges := by
  intro before exchange after split
  subst split
  exact ⟨fun upload => absurd upload (download before exchange after rfl).no_upload, fun req => download.kept16 range⟩

/-- The UPLOAD requests of one loop. -/
def Uploading (xferSize : Int) (request : List UInt8) : Prop :=
  ∃ transaction, request = uploadRequest (UInt16.ofInt xferSize) transaction

theorem asked_unchanged (range : 1 ≤ xferSize ∧ xferSize ≤ 65535) (asked : Asked (Uploading xferSize) exchanges) :
    Unchanged file xferSize exchanges := by
  intro before exchange after split
  obtain ⟨transaction, same⟩ := asked exchange (by rw [split]; simp)
  obtain ⟨request, response⟩ := exchange
  obtain rfl : request = uploadRequest (UInt16.ofInt xferSize) transaction := same
  have typed : (Exchange.mk (uploadRequest (UInt16.ofInt xferSize) transaction) response).type = qdaPktDfuUploadReq := type_packet _ _ _
  refine ⟨fun _ => ?_, fun req found => ?_⟩
  · have field := leAt_append (leBytes 4 qdaPktDfuUploadReq.toNat) (leBytes 2 (UInt16.ofInt xferSize).toNat)
      (leBytes 2 transaction.toNat ++ []) 2 (leBytes_length 2 _)
    rw [leBytes_length] at field
    rw [show leAt (uploadRequest (UInt16.ofInt xferSize) transaction) 4 2 = _ from field,
      leNat_leBytes_of_lt (UInt16.ofInt xferSize).toNat_lt, toNat_ofInt (by omega) range.2]
  · have other := dnload_get found
    rw [typed] at other
    exact absurd other (by decide)

theorem Unchanged.snoc {request : List UInt8} {response : Option QdaBuf} (unchanged : Unchanged file xferSize exchanges)
    (other : ¬Transfers request) : Unchanged file xferSize (exchanges ++ [⟨request, response⟩]) := by
  intro before exchange after split
  rcases List.eq_nil_or_concat after with rfl | ⟨front, last, rfl⟩
  · obtain ⟨rfl, same⟩ := List.append_inj' split rfl
    cases same
    exact ⟨fun upload => absurd (.inr upload) other, fun req found => absurd (.inl (dnload_get found)) other⟩
  · rw [List.concat_eq_append, ← List.cons_append, ← List.append_assoc] at split
    exact unchanged before exchange front (List.append_inj' split rfl).1

theorem Unchanged.answerLast (unchanged : Unchanged file xferSize exchanges) (after : QdaBuf) :
    Unchanged file xferSize (answerLast after exchanges) := by
  rcases List.eq_nil_or_concat exchanges with rfl | ⟨front, last, rfl⟩
  · exact unchanged
  · rw [List.concat_eq_append] at unchanged ⊢
    rw [answerLast_snoc]
    intro before exchange tail split
    rcases List.eq_nil_or_concat tail with rfl | ⟨middle, final, rfl⟩
    · obtain ⟨rfl, same⟩ := List.append_inj' split rfl
      cases same
      exact unchanged front last [] rfl
    · rw [List.concat_eq_append, ← List.cons_append, ← List.append_assoc] at split
      exact unchanged before exchange (middle ++ [last]) (by rw [(List.append_inj' split rfl).1]; simp)

theorem Unchanged.follow {codes : Nat → Prop} {event : Event Calls} (unchanged : Unchanged file xferSize exchanges)
    (within : Within codes (fun request => ¬Transfers request) event.op) : Unchanged file xferSize (follow exchanges event) := by
  obtain ⟨op, answer⟩ := event
  cases op with
  | send data => exact unchanged.snoc within
  | receive qdaBuf => exact unchanged.answerLast _
  | _ => exact unchanged

end Blocks

/-- `main` calls a transfer routine with this size. -/
def Session.Passes (session : Session) (xferSize : Int) : Prop :=
  session.course = .upload xferSize ∨ session.course = .download (.dnload xferSize)

section Runs

variable {session : Session} {xferSize : Int} {held : QdaBuf} {now : History Calls}

theorem Session.Passes.size (passes : session.Passes xferSize) : xferSize = session.xferSize := by
  unfold Session.Passes Session.course at passes
  split at passes
  next =>
    split at passes
    · simp at passes
    · simpa [eq_comm] using passes
  next =>
    simp only [Course.download.injEq, reduceCtorEq, false_or] at passes
    unfold Session.decision at passes
    split at passes
    · cases passes
    · split at passes
      · cases passes
      · cases passes
        rfl
  next => simp at passes
  next => simp at passes

theorem transfer_unchanged (range : 1 ≤ xferSize ∧ xferSize ≤ 65535) (passes : session.Passes xferSize) :
    wp (fun now => Unchanged session.file xferSize (dialogue now)) ((transfer session).run held)
      (fun _ now => Unchanged session.file xferSize (dialogue now)) [] := by
  rw [transfer_follows]
  rcases passes with upload | download
  · rw [upload]
    have fails {α : Type} (code : Nat) : Static.Performs (Within (fun _ => True) (Uploading xferSize)) (Host.exit code : Host.Code α) :=
      performs_exit trivial
    have performs : Static.Performs (Within (fun _ => True) (Uploading xferSize)) (Course.follow session.file (.upload xferSize)) := by
      refine .bind (.perform trivial) fun fd => ?_
      split
      · exact fails _
      refine .bind (dfuloadDoUpload_within (fun _ _ => trivial) (fun transaction => ⟨transaction, rfl⟩) _ _) fun ret => ?_
      split
      · exact fails _
      · exact .perform trivial
    have start : Kept (Asked (Uploading xferSize)) (fun _ => True) [] := ⟨by simp [dialogue, Asked], by simp⟩
    exact (Kept.performs start performs).mono (fun _ kept => asked_unchanged range kept.dialogue) fun _ _ _ kept =>
      asked_unchanged range kept.dialogue
  · rw [download]
    have start : At session.file xferSize (.ready 0) [] := ⟨⟨Download.nil, by simp⟩, rfl⟩
    have spec : wp (Kept (Download session.file xferSize) failure)
        ((Course.follow session.file (.download (.dnload xferSize))).run held)
        (fun _ now => Kept (Download session.file xferSize) failure now) [] := by
      simp only [Course.follow]
      rw [StateT.run_bind, wp_seq]
      refine (dfuloadDoDnload_spec start).imp fun result later kept _ => ?_
      split
      · exact kept.exit (by decide)
      · exact (wp_pure _).mpr ⟨kept, kept⟩
    exact spec.mono (fun _ kept => kept.dialogue.unchanged range) fun _ _ _ kept => kept.dialogue.unchanged range

theorem goOn_unchanged (range : 1 ≤ xferSize ∧ xferSize ≤ 65535) (passes : session.Passes xferSize) :
    wp (fun now => Unchanged session.file xferSize (dialogue now)) (session.goOn.run held) (fun _ _ => True) [] := by
  rw [Session.goOn, StateT.run_bind, wp_seq]
  refine (transfer_unchanged range passes).imp fun result later _ unchanged => ?_
  have reset : ¬Transfers resetRequest := by
    simp only [Transfers, resetRequest, type_packet]
    decide
  have ends : Static.Performs (Within (fun _ => True) fun request => ¬Transfers request) (finish session) :=
    finish_within (fun _ _ => trivial) reset session
  refine ((ends result.2).wp (fun now event within unchanged => ?_) unchanged).imp fun _ _ _ _ => trivial
  rw [dialogue_snoc]
  exact unchanged.follow within

/-- The range is all there is to it, whatever the file and the device. -/
theorem lengthsKept_iff (passes : session.Passes xferSize) :
    LengthsKept session xferSize held ↔ 1 ≤ xferSize ∧ xferSize ≤ 65535 := by
  constructor
  · intro kept
    exact kept.range
  · intro range
    refine ⟨range, ?_, ?_⟩
    · intro now rest run
      exact (goOn_unchanged range passes).safe run
    · intro now value kept run
      have start : At session.file xferSize (.ready 0) [] := ⟨⟨Download.nil, by simp⟩, rfl⟩
      have download := ((dfuloadDoDnload_spec start).safe run).dialogue
      rw [(dnload_result run).2]
      exact (download.counts range).bytes

theorem no_transfer (nothing : ¬∃ xferSize, session.Passes xferSize) {rest : Program Calls (Int × QdaBuf)}
    (run : Runs (session.goOn.run held) now rest) : Asked (fun request => ¬Transfers request) (dialogue now) := by
  have reset : ¬Transfers resetRequest := by
    simp only [Transfers, resetRequest, type_packet]
    decide
  have any (code : Nat) (_ : code ≠ 0) : True := trivial
  have fails {α : Type} (code : Nat) :
      Static.Performs (Within (fun _ => True) fun request => ¬Transfers request) (Host.exit code : Host.Code α) := performs_exit trivial
  have performs : Static.Performs (Within (fun _ => True) fun request => ¬Transfers request) session.goOn := by
    refine .bind ?_ fun _ => finish_within any reset session
    rw [transfer_follows]
    cases course : session.course with
    | download decision =>
      cases decision with
      | mismatch | unsupported => exact fails _
      | dnload xferSize => exact absurd ⟨xferSize, .inr course⟩ nothing
    | upload xferSize => exact absurd ⟨xferSize, .inl course⟩ nothing
    | dfuseUpload =>
      refine .bind (.perform trivial) fun fd => ?_
      split <;> exact fails _
    | detach => exact .bind (detach_performs trivial) fun _ => .pure _
    | unsupported => exact fails _
  exact asked_of_performs run (performs held)

theorem main_goes_on {pageSize : Option Int} {root : QdaIf} {argv : List Opt} {qdaBuf : QdaBuf}
    (run : Runs ((prepare pageSize root argv).run qdaBuf) now (.ret (session, held))) {event : Event Calls} {later : History Calls}
    {rest : Program Calls (Int × QdaBuf)} :
    Runs ((main pageSize root argv).run qdaBuf) (now ++ event :: later) rest ↔ Runs (session.goOn.run held) (event :: later) rest := by
  have started : Runs ((main pageSize root argv).run qdaBuf) (now ++ []) (session.goOn.run held) := run.andThen (.here _)
  rw [List.append_nil] at started
  exact ⟨started.continues, started.trans⟩

end Runs

/-- The transfer size that is asked for, by the user or else by the device, comes to the transfer
routines as a number of at most 16 bits. Where transfers are limited to a page, this limits a size
that is positive as an `int`, and the others remain. -/
def Representable (pageSize : Option Int) (transferSize : UInt32) (wTransferSize : UInt16) (bMaxPacketSize0 : UInt8) : Prop :=
  let requested := if transferSize = 0 then wTransferSize.toNat else transferSize.toNat
  match pageSize with
  | none => requested ≤ 65535
  | some page =>
    if page < toInt requested then page % 2 ^ 32 ≤ 65535 ∧ (page % 2 ^ 32 ≠ 0 ∨ bMaxPacketSize0 ≠ 0)
    else requested ≤ 65535

section Sizes

variable {pageSize : Option Int} {size transferSize : UInt32} {wTransferSize : UInt16} {bMaxPacketSize0 : UInt8}

theorem adjusted_toNat : (adjustedSize size bMaxPacketSize0).toNat = max size.toNat bMaxPacketSize0.toNat := by
  unfold adjustedSize
  by_cases less : size < bMaxPacketSize0.toUInt32
  · rw [if_pos less, UInt8.toNat_toUInt32]
    rw [UInt32.lt_iff_toNat_lt, UInt8.toNat_toUInt32] at less
    omega
  · rw [if_neg less]
    rw [UInt32.lt_iff_toNat_lt, UInt8.toNat_toUInt32] at less
    omega

theorem passed_range : (1 ≤ toInt (adjustedSize size bMaxPacketSize0).toNat ∧ toInt (adjustedSize size bMaxPacketSize0).toNat ≤ 65535) ↔
    size.toNat ≤ 65535 ∧ (size.toNat ≠ 0 ∨ bMaxPacketSize0.toNat ≠ 0) := by
  have packet := bMaxPacketSize0.toNat_lt
  have word := size.toNat_lt
  rw [adjusted_toNat]
  unfold toInt
  omega

theorem representable_iff (sized : requestedSize pageSize transferSize wTransferSize = some size) :
    (size.toNat ≤ 65535 ∧ (size.toNat ≠ 0 ∨ bMaxPacketSize0.toNat ≠ 0)) ↔
      Representable pageSize transferSize wTransferSize bMaxPacketSize0 := by
  have asked : (if transferSize = 0 then wTransferSize.toUInt32 else transferSize).toNat =
      if transferSize = 0 then wTransferSize.toNat else transferSize.toNat := by
    split
    · exact UInt16.toNat_toUInt32 _
    · rfl
  unfold requestedSize at sized
  unfold Representable
  rw [← asked]
  generalize (if transferSize = 0 then wTransferSize.toUInt32 else transferSize) = requested at sized
  dsimp only at sized ⊢
  by_cases zero : requested = 0
  · rw [if_pos zero] at sized
    cases sized
  · have positive : requested.toNat ≠ 0 := fun same => zero (UInt32.toNat_inj.mp same)
    rw [if_neg zero] at sized
    cases pageSize with
    | none =>
      cases sized
      simp only [positive, ne_eq, not_false_eq_true, true_or, and_true]
    | some page =>
      cases sized
      dsimp only
      by_cases limited : toInt requested.toNat > page
      · have low : (UInt32.ofInt page).toNat = (page % 2 ^ 32).toNat := by
          rw [UInt32.ofInt, UInt32.toNat_ofNat']
          omega
        have packet : bMaxPacketSize0.toNat ≠ 0 ↔ bMaxPacketSize0 ≠ 0 := not_congr (@UInt8.toNat_inj bMaxPacketSize0 0)
        rw [if_pos limited, if_pos limited, low, packet]
        apply and_congr
        · omega
        · apply or_congr_left
          omega
      · rw [if_neg limited, if_neg limited]
        simp only [positive, ne_eq, not_false_eq_true, true_or, and_true]

end Sizes

/-- A size reaches the device as it is exactly when 16 bits are enough for what has been asked for.
What `main` does with a session is what its runs go on with, and without a call nothing is transferred. -/
theorem lengths_kept_iff {pageSize : Option Int} {root : QdaIf} {argv : List Opt} {session : Session} {qdaBuf held : QdaBuf}
    {now : History Calls} (run : Runs ((prepare pageSize root argv).run qdaBuf) now (.ret (session, held))) :
    ((∀ xferSize, session.Passes xferSize → LengthsKept session xferSize held) ↔
      ((∃ xferSize, session.Passes xferSize) → Representable pageSize session.options.transferSize session.root.wTransferSize
        root.bMaxPacketSize0)) ∧
    (∀ event later rest, Runs ((main pageSize root argv).run qdaBuf) (now ++ event :: later) rest ↔
      Runs (session.goOn.run held) (event :: later) rest) ∧
    ((¬∃ xferSize, session.Passes xferSize) → ∀ later rest, Runs (session.goOn.run held) later rest →
      Asked (fun request => ¬Transfers request) (dialogue later)) := by
  obtain ⟨again, size, sized⟩ := prepare_rebase run root
  have same : session = session.rebase pageSize root := congrArg Prod.fst (Runs.same_value run again)
  have passed : session.xferSize = toInt (adjustedSize size root.bMaxPacketSize0).toNat := by
    rw [same]
    exact rebase_xferSize sized
  refine ⟨?_, fun _ _ _ => main_goes_on run, fun nothing _ _ => no_transfer nothing⟩
  rw [← representable_iff sized, ← passed_range, ← passed]
  constructor
  · intro kept passes
    obtain ⟨xferSize, call⟩ := passes
    have range := (kept xferSize call).range
    rwa [call.size] at range
  · intro range xferSize call
    apply (lengthsKept_iff call).mpr
    rw [call.size]
    exact range ⟨xferSize, call⟩

theorem plain_lengths_kept : ∃ now found held,
    Runs ((prepare none ⟨0, 0, 0, 0, 0, 0, 0⟩ [.download "firmware.bin"]).run QdaBuf.blank) now (.ret (found, held)) ∧
    ∀ xferSize, found.Passes xferSize → LengthsKept found xferSize held := by
  have sized : requestedSize none plain.transferSize 1024 = some 1024 := by decide
  have read : readOptions [.download "firmware.bin"] = some plain := rfl
  have run := prepared_run ⟨0, 0, 0, 0, 0, 0, 0⟩ read rfl rfl sized
  refine ⟨_, _, _, run, (lengths_kept_iff run).1.mpr ?_⟩
  intro _
  show (1024 : Nat) ≤ 65535
  omega

/-- The options of a download in blocks of 65536 bytes. -/
def huge : Options := { plain with transferSize := 65536 }

/-- A transfer size of 65536 is passed on as it is, and asks the device for no bytes at all. -/
theorem transfer_size_65536_becomes_zero : ∃ argv now found held,
    Runs ((prepare none ⟨0, 0, 0, 0, 0, 0, 0⟩ argv).run QdaBuf.blank) now (.ret (found, held)) ∧
    found.Passes 65536 ∧ ¬LengthsKept found 65536 held ∧ (UInt16.ofInt 65536).toNat = 0 := by
  have number : atoi "65536".toList = toInt 65536 := rfl
  have read : readOptions [.transferSize "65536", .download "firmware.bin"] = some huge := by
    simp only [readOptions, List.foldlM, Options.take, number, toInt_of_range (show -2 ^ 31 ≤ (65536 : Int) by decide) (by decide)]
    rfl
  have sized : requestedSize none huge.transferSize 1024 = some 65536 := by decide
  have whole : (session huge ⟨0, 0, 0, 0, 0, 0, 0⟩ 65536).xferSize = 65536 := toInt_of_range (by decide) (by decide)
  have goes : (session huge ⟨0, 0, 0, 0, 0, 0, 0⟩ 65536).decision = .dnload 65536 := by
    rw [Session.decision, whole]
    simp [Session.mismatch, session, oneByte, DfuFile.unread, Session.dfuseDevice, described, DfuFile.zero]
  refine ⟨_, _, _, _, prepared_run _ read rfl rfl sized, .inr (congrArg Course.download goes), ?_, rfl⟩
  intro kept
  have range := kept.range.2
  omega

end DfuUtilQda.Dfu

import DfuUtilQda.Proofs.DeviceCalls

/-! The download as a dialogue: a machine that reads the exchanges and says which
request comes next. The program never makes another one, whatever the device answers. -/

namespace DfuUtilQda.Dfu
open Interaction Machine Qda Host

variable (file : DfuFile) (xferSize : Int)

def expectedSize : Int := toInt (file.total - file.suffixSize)

/-- The local variables after one more block. -/
def Progress.next (s : Progress) : Progress where
  bytesSent := toInt (s.bytesSent + chunkSize file xferSize s)
  buf := s.buf.advance (chunkSize file xferSize s)
  transaction := s.transaction + 1

/-- The local variables when `blocks` blocks have been acknowledged. -/
def progress : Nat → Progress
  | 0 => Progress.start file
  | blocks + 1 => (progress blocks).next file xferSize

/-- There is a block after the first `blocks` ones. -/
def More (blocks : Nat) : Prop := (progress file xferSize blocks).bytesSent < expectedSize file

instance (blocks : Nat) : Decidable (More file xferSize blocks) := inferInstanceAs (Decidable (_ < _))

/-- The length that block is given as, and the memory it is read from. -/
def blockLength (blocks : Nat) : UInt16 := UInt16.ofInt (chunkSize file xferSize (progress file xferSize blocks))
def blockSource (blocks : Nat) : Pointer :=
  if chunkSize file xferSize (progress file xferSize blocks) ≠ 0 then (progress file xferSize blocks).buf else Pointer.null

/-- Where a download stands. It is `stopped` when it was given up and `aborted` when the program was. -/
inductive Phase where
  | ready (blocks : Nat)
  | polling (blocks : Nat)
  | manifesting (blocks : Nat)
  | finished (blocks : Nat) (bStatus : UInt8)
  | stopped (blocks : Nat)
  | aborted (blocks : Nat)
  deriving DecidableEq

/-- The number of blocks the device has acknowledged. -/
def Phase.blocks : Phase → Nat
  | ready blocks | polling blocks | manifesting blocks | finished blocks _ | stopped blocks | aborted blocks => blocks

/-- The device has taken the block or failed to. -/
abbrev settled (dst : DfuStatus) : Prop := dst.bState = stateDfuDnloadIdle ∨ dst.bState = stateDfuError

abbrev manifests (dst : DfuStatus) : Prop := dst.bState = stateDfuManifestSync ∨ dst.bState = stateDfuManifest

/-- What an exchange makes of a phase. -/
def Phase.step (phase : Phase) (exchange : Exchange) : Phase :=
  match phase with
  | ready blocks =>
    if More file xferSize blocks then if exchange.acknowledged then polling (blocks + 1) else stopped blocks
    else if exchange.acknowledged then manifesting blocks else aborted blocks
  | polling blocks => match exchange.report with
    | none => aborted blocks
    | some dst => if settled dst then if dst.bStatus = dfuStatusOk then ready blocks else stopped blocks else polling blocks
  | manifesting blocks => match exchange.report with
    | none => stopped blocks
    | some dst => if manifests dst then manifesting blocks else finished blocks dst.bStatus
  | finished blocks bStatus => finished blocks bStatus
  | stopped blocks => stopped blocks
  | aborted blocks => aborted blocks

/-- The request that may be made in a phase. -/
def Phase.Asks (phase : Phase) (request : List UInt8) : Prop :=
  match phase with
  | ready blocks =>
    if More file xferSize blocks then
      (blockLength file xferSize blocks).toNat ≤ qdaBufSize - 8 ∧ ∃ bytes,
        (blockSource file xferSize blocks).load (blockLength file xferSize blocks).toNat = some bytes ∧
        request = dnloadRequest (blockLength file xferSize blocks) (progress file xferSize blocks).transaction bytes
    else request = dnloadRequest 0 (progress file xferSize blocks).transaction []
  | polling _ | manifesting _ => request = getstatusRequest
  | finished _ _ | stopped _ | aborted _ => False

def phaseAfter (exchanges : List Exchange) : Phase := exchanges.foldl (Phase.step file xferSize) (.ready 0)

/-- Every request was the one its phase asks for. -/
def Download (exchanges : List Exchange) : Prop :=
  ∀ before exchange after, exchanges = before ++ exchange :: after →
    (phaseAfter file xferSize before).Asks file xferSize exchange.request

variable {file} {xferSize} {exchanges : List Exchange} {exchange : Exchange} {blocks : Nat}

@[simp] theorem phaseAfter_snoc : phaseAfter file xferSize (exchanges ++ [exchange]) =
    (phaseAfter file xferSize exchanges).step file xferSize exchange := by
  simp [phaseAfter]

theorem Download.nil : Download file xferSize [] := by
  simp [Download]

theorem Download.snoc (download : Download file xferSize exchanges)
    (asked : (phaseAfter file xferSize exchanges).Asks file xferSize exchange.request) :
    Download file xferSize (exchanges ++ [exchange]) := by
  intro before found after split
  rcases List.eq_nil_or_concat after with rfl | ⟨front, last, rfl⟩
  · obtain ⟨rfl, same⟩ := List.append_inj' split rfl
    cases same
    exact asked
  · rw [List.concat_eq_append, ← List.cons_append, ← List.append_assoc] at split
    exact download before found front (List.append_inj' split rfl).1

/-- The codes the download exits with are all failures. -/
abbrev failure (code : Nat) : Prop := code ≠ 0

variable (file xferSize) in
/-- The dialogue has come to a phase by requests that were all asked for. -/
structure At (phase : Phase) (now : History Calls) : Prop where
  kept : Kept (Download file xferSize) failure now
  phase : phaseAfter file xferSize (dialogue now) = phase

variable (file xferSize) in
/-- QDA does not take the block, since it does not fit its buffer. -/
def Refused (blocks : Nat) : Prop := More file xferSize blocks ∧ qdaBufSize - 8 < (blockLength file xferSize blocks).toNat

variable (file xferSize) in
/-- How the block loop or the whole download ended: in a phase in which nothing is asked
for any more, or before a block that could not be handed over. -/
def Ended (bytesSent : Int) (now : History Calls) : Prop :=
  ∃ phase, At file xferSize phase now ∧ bytesSent = (progress file xferSize phase.blocks).bytesSent ∧
    match phase with
    | .ready blocks => Refused file xferSize blocks
    | .finished _ _ | .stopped _ => True
    | .polling _ | .manifesting _ | .aborted _ => False

section Program

variable {now later : History Calls} {phase : Phase} {qdaBuf : QdaBuf}

theorem At.next (here : At file xferSize phase now) (kept : Kept (Download file xferSize) failure later)
    (same : dialogue later = dialogue now ++ [exchange]) : At file xferSize (phase.step file xferSize exchange) later :=
  ⟨kept, by rw [same, phaseAfter_snoc, here.phase]⟩

theorem At.still (here : At file xferSize phase now) (kept : Kept (Download file xferSize) failure later)
    (same : dialogue later = dialogue now) : At file xferSize phase later :=
  ⟨kept, by rw [same, here.phase]⟩

theorem At.asks (here : At file xferSize phase now) {request : List UInt8} (asked : phase.Asks file xferSize request)
    (response : Option QdaBuf) : Download file xferSize (dialogue now ++ [⟨request, response⟩]) :=
  here.kept.dialogue.snoc (by rwa [here.phase])

theorem pollStatus_spec (here : At file xferSize (.polling blocks) now) :
    wp (Kept (Download file xferSize) failure) (pollStatus.run qdaBuf) (fun result later =>
      At file xferSize (if result.1.bStatus = dfuStatusOk then .ready blocks else .stopped blocks) later) now := by
  apply wp.static_loop (fun _ _ now => At file xferSize (.polling blocks) now) here
  intro _ held now here
  rw [StateT.run_bind, wp_seq]
  refine here.kept.getStatus (here.asks rfl) fun response held later kept same => ?_
  have next := here.next kept same
  simp only [Phase.step] at next ⊢
  split
  next => exact kept.exit (by decide)
  next dst reported =>
    simp only [reported] at next
    split
    next done =>
      rw [if_pos done] at next
      exact (wp_pure _).mpr ⟨kept, next⟩
    next busy =>
      rw [if_neg busy] at next
      rw [StateT.run_bind, wp_seq]
      exact next.kept.milliSleep fun later kept same => (wp_pure _).mpr ⟨kept, next.still kept same⟩

theorem dnloadRound_spec (here : At file xferSize (.ready blocks) now) :
    wp (Kept (Download file xferSize) failure) ((dnloadRound file xferSize (progress file xferSize blocks)).run qdaBuf)
      (fun outcome later => match outcome.1 with
        | .inl s => s = progress file xferSize (blocks + 1) ∧ At file xferSize (.ready (blocks + 1)) later
        | .inr (true, s) => s = progress file xferSize blocks ∧ ¬More file xferSize blocks ∧ At file xferSize (.ready blocks) later
        | .inr (false, s) => Ended file xferSize s.bytesSent later) now := by
  unfold dnloadRound
  split
  next more =>
    have more : More file xferSize blocks := more
    rw [StateT.run_bind, wp_seq]
    refine here.kept.download ?_ ?_ ?_
    · intro bytes response short loaded
      refine here.asks ?_ response
      simp only [Phase.Asks, if_pos more]
      exact ⟨short, bytes, loaded, rfl⟩
    · intro long held
      exact (wp_pure _).mpr ⟨here.kept, .ready blocks, here, rfl, more, long⟩
    · intro bytes response rc held later short loaded kept same sign
      have next := here.next kept same
      simp only [Phase.step, if_pos more] at next
      split
      next failed =>
        rw [if_neg (fun acknowledged => by have := sign.mpr acknowledged; omega)] at next
        exact (wp_pure _).mpr ⟨kept, .stopped blocks, next, rfl, trivial⟩
      next taken =>
        rw [if_pos (sign.mp (by omega))] at next
        rw [StateT.run_bind, wp_seq]
        refine (pollStatus_spec next).imp ?_
        rintro ⟨dst, held⟩ later kept polled
        simp only at polled ⊢
        split
        next bad =>
          rw [if_neg bad] at polled
          exact (wp_pure _).mpr ⟨kept, .stopped (blocks + 1), polled, rfl, trivial⟩
        next good =>
          rw [if_pos (not_not.mp good)] at polled
          exact (wp_pure _).mpr ⟨kept, rfl, polled⟩
  next all => exact (wp_pure _).mpr ⟨here.kept, rfl, all, here⟩

theorem awaitManifest_spec (here : At file xferSize (.manifesting blocks) now) :
    wp (Kept (Download file xferSize) failure) (awaitManifest.run qdaBuf) (fun _ later =>
      Ended file xferSize (progress file xferSize blocks).bytesSent later) now := by
  apply wp.static_loop (fun _ _ now => At file xferSize (.manifesting blocks) now) here
  intro _ held now here
  rw [StateT.run_bind, wp_seq]
  refine here.kept.getStatus (here.asks rfl) fun response held later kept same => ?_
  have next := here.next kept same
  simp only [Phase.step] at next ⊢
  split
  next silent =>
    simp only [silent] at next
    exact (wp_pure _).mpr ⟨kept, .stopped blocks, next, rfl, trivial⟩
  next dst reported =>
    simp only [reported] at next
    rw [StateT.run_bind, wp_seq]
    refine next.kept.milliSleep fun later kept same => ?_
    replace next := next.still kept same
    split
    next busy =>
      rw [if_pos busy] at next
      rw [StateT.run_bind, wp_seq]
      exact next.kept.milliSleep fun later kept same => (wp_pure _).mpr ⟨kept, next.still kept same⟩
    next done =>
      rw [if_neg done] at next
      exact (wp_pure _).mpr ⟨kept, .finished blocks dst.bStatus, next, rfl, trivial⟩

/-- At every moment of the download each request so far was the one to be made, and in the
end what is returned is the number of bytes in the blocks the device has acknowledged. -/
theorem dfuloadDoDnload_spec (here : At file xferSize (.ready 0) now) :
    wp (Kept (Download file xferSize) failure) ((dfuloadDoDnload xferSize file).run qdaBuf) (fun result later =>
      Ended file xferSize result.1 later) now := by
  rw [dfuloadDoDnload, StateT.run_bind, wp_seq]
  have looped : wp (Kept (Download file xferSize) failure)
      ((Static.loop (dnloadRound file xferSize) (Progress.start file)).run qdaBuf) (fun outcome later =>
        match outcome.1 with
        | (true, s) => ∃ blocks, s = progress file xferSize blocks ∧ ¬More file xferSize blocks ∧
            At file xferSize (.ready blocks) later
        | (false, s) => Ended file xferSize s.bytesSent later) now := by
    apply wp.static_loop fun s _ now => ∃ blocks, s = progress file xferSize blocks ∧ At file xferSize (.ready blocks) now
    · exact ⟨0, rfl, here⟩
    · rintro s held now ⟨blocks, rfl, here⟩
      refine (dnloadRound_spec here).imp ?_
      rintro ⟨outcome, held⟩ later kept result
      rcases outcome with s | ⟨_ | _, s⟩
      · exact ⟨blocks + 1, result⟩
      · exact result
      · exact ⟨blocks, result⟩
  refine looped.imp ?_
  rintro ⟨⟨complete, s⟩, held⟩ later kept result
  cases complete with
  | false => exact (wp_pure _).mpr ⟨kept, result⟩
  | true =>
    obtain ⟨blocks, rfl, all, here⟩ := result
    simp only [if_true]
    rw [StateT.run_bind, wp_seq]
    have nothing (bytes : List UInt8) (loaded : Pointer.null.load (0 : UInt16).toNat = some bytes) : bytes = [] := by
      simpa [Pointer.load] using loaded.symm
    refine here.kept.download ?_ ?_ ?_
    · intro bytes response _ loaded
      obtain rfl := nothing bytes loaded
      refine here.asks ?_ response
      simp only [Phase.Asks, if_neg all]
    · intro long
      exact absurd long (by decide)
    · intro bytes response rc held later _ loaded kept same sign
      obtain rfl := nothing bytes loaded
      have next := here.next kept same
      simp only [Phase.step, if_neg all] at next
      split
      next => exact kept.exit (by decide)
      next taken =>
        rw [if_pos (sign.mp (by omega))] at next
        rw [StateT.run_bind, wp_seq]
        refine (awaitManifest_spec next).imp ?_
        rintro ⟨_, held⟩ later kept ended
        exact (wp_pure _).mpr ⟨kept, ended⟩

end Program

end DfuUtilQda.Dfu

import DfuUtilQda.Proofs.Operations
import DfuUtilQda.Proofs.SessionRuns

/-! What a download returns, against what the device has made of it. The number of
bytes is returned on every way out that does not end the program. -/

namespace DfuUtilQda.Dfu
open Interaction Machine Qda Host

variable (file : DfuFile) (xferSize : Int)

/-- The device took every block and the end of the image, and was content to the last. -/
def Delivered (exchanges : List Exchange) : Prop :=
  Download file xferSize exchanges ∧ ∃ blocks, phaseAfter file xferSize exchanges = .finished blocks dfuStatusOk

/-- An answer that ends the download early, or ends it with an error. -/
inductive Mishap : Phase → Exchange → Prop where
  | refused {blocks : Nat} {exchange : Exchange} (more : More file xferSize blocks) (refused : ¬exchange.acknowledged) :
      Mishap (.ready blocks) exchange
  | rejected {blocks : Nat} {exchange : Exchange} {dst : DfuStatus} (reported : exchange.report = some dst)
      (done : settled dst) (bad : dst.bStatus ≠ dfuStatusOk) : Mishap (.polling blocks) exchange
  | silent {blocks : Nat} {exchange : Exchange} (silent : exchange.report = none) : Mishap (.manifesting blocks) exchange
  | unmanifested {blocks : Nat} {exchange : Exchange} {dst : DfuStatus} (reported : exchange.report = some dst)
      (done : ¬manifests dst) (bad : dst.bStatus ≠ dfuStatusOk) : Mishap (.manifesting blocks) exchange

/-- Something went wrong: an answer of the device, or a block that QDA does not take. -/
def Troubled (exchanges : List Exchange) : Prop :=
  (∃ before exchange after, exchanges = before ++ exchange :: after ∧
    Mishap file xferSize (phaseAfter file xferSize before) exchange) ∨
  ∃ blocks, phaseAfter file xferSize exchanges = .ready blocks ∧ Refused file xferSize blocks

/-- The phases that follow a mishap. -/
def Phase.Spoilt : Phase → Prop
  | .stopped _ => True
  | .finished _ bStatus => bStatus ≠ dfuStatusOk
  | .ready _ | .polling _ | .manifesting _ | .aborted _ => False

variable {file} {xferSize} {exchanges before after : List Exchange} {exchange : Exchange} {phase : Phase}

theorem Phase.Spoilt.step (spoilt : phase.Spoilt) : (phase.step file xferSize exchange).Spoilt := by
  cases phase with
  | stopped | finished => exact spoilt
  | ready | polling | manifesting | aborted => exact spoilt.elim

theorem Mishap.spoils (mishap : Mishap file xferSize phase exchange) : (phase.step file xferSize exchange).Spoilt := by
  cases mishap with
  | refused more refused =>
    simp only [Phase.step, if_pos more, if_neg refused]
    trivial
  | rejected reported done bad =>
    simp only [Phase.step, reported, if_pos done, if_neg bad]
    trivial
  | silent silent =>
    simp only [Phase.step, silent]
    trivial
  | unmanifested reported done bad =>
    simp only [Phase.step, reported, if_neg done]
    exact bad

theorem Phase.Spoilt.mishap (fresh : ¬phase.Spoilt) (spoilt : (phase.step file xferSize exchange).Spoilt) :
    Mishap file xferSize phase exchange := by
  unfold Phase.step at spoilt
  repeat' split at spoilt
  all_goals first
    | exact spoilt.elim
    | exact absurd spoilt fresh
    | skip
  next more refused => exact .refused more refused
  next reported done bad => exact .rejected reported done bad
  next silent => exact .silent silent
  next reported done => exact .unmanifested reported done spoilt

theorem spoilt_iff : (phaseAfter file xferSize exchanges).Spoilt ↔ ∃ before exchange after,
    exchanges = before ++ exchange :: after ∧ Mishap file xferSize (phaseAfter file xferSize before) exchange := by
  induction exchanges using List.reverseRecOn with
  | nil => exact ⟨fun spoilt => spoilt.elim, fun ⟨_, _, _, split, _⟩ => by simp at split⟩
  | append_singleton front last ih =>
    rw [phaseAfter_snoc]
    constructor
    · intro spoilt
      by_cases early : (phaseAfter file xferSize front).Spoilt
      · obtain ⟨before, exchange, after, rfl, mishap⟩ := ih.mp early
        exact ⟨before, exchange, after ++ [last], by simp, mishap⟩
      · exact ⟨front, last, [], rfl, Phase.Spoilt.mishap early spoilt⟩
    · rintro ⟨before, exchange, after, split, mishap⟩
      rcases List.eq_nil_or_concat after with rfl | ⟨rest, final, rfl⟩
      · obtain ⟨rfl, same⟩ := List.append_inj' split rfl
        cases same
        exact mishap.spoils
      · rw [List.concat_eq_append, ← List.cons_append, ← List.append_assoc] at split
        obtain ⟨rfl, _⟩ := List.append_inj' split rfl
        exact (ih.mpr ⟨before, exchange, rest, rfl, mishap⟩).step

variable {now : History Calls} {bytesSent : Int}

theorem Ended.delivered_iff (ended : Ended file xferSize bytesSent now) :
    Delivered file xferSize (dialogue now) ↔ ¬Troubled file xferSize (dialogue now) := by
  obtain ⟨phase, here, _, how⟩ := ended
  rw [Troubled, ← spoilt_iff, Delivered, here.phase]
  cases phase with
  | ready blocks => simp [Phase.Spoilt, how]
  | finished blocks bStatus => simp [Phase.Spoilt, here.kept.dialogue]
  | stopped blocks => simp [Phase.Spoilt]
  | polling | manifesting | aborted => exact how.elim

theorem dnload_result {qdaBuf held : QdaBuf} {value : Int}
    (run : Runs ((dfuloadDoDnload xferSize file).run qdaBuf) now (.ret (value, held))) :
    (Delivered file xferSize (dialogue now) ↔ ¬Troubled file xferSize (dialogue now)) ∧
    value = (progress file xferSize (phaseAfter file xferSize (dialogue now)).blocks).bytesSent := by
  have start : At file xferSize (.ready 0) [] := ⟨⟨Download.nil, by simp⟩, rfl⟩
  have ended := (dfuloadDoDnload_spec start).returns run
  refine ⟨ended.delivered_iff, ?_⟩
  obtain ⟨phase, here, same, _⟩ := ended
  rw [here.phase, ← same]

theorem phaseAfter_more : ∀ block < (phaseAfter file xferSize exchanges).blocks, More file xferSize block := by
  induction exchanges using List.reverseRecOn with
  | nil => simp [phaseAfter, Phase.blocks]
  | append_singleton front last ih =>
    rw [phaseAfter_snoc]
    generalize phaseAfter file xferSize front = phase at ih
    unfold Phase.step
    repeat' split
    all_goals try exact ih
    next blocks more _ =>
      intro block before
      obtain earlier | rfl := Nat.lt_succ_iff_lt_or_eq.mp before
      · exact ih block earlier
      · exact more

theorem progress_nonneg (size : 0 ≤ xferSize) {blocks : Nat} (more : ∀ block < blocks, More file xferSize block) :
    0 ≤ (progress file xferSize blocks).bytesSent := by
  induction blocks with
  | zero => exact Int.le_refl 0
  | succ blocks ih =>
    have sent := ih fun block before => more block (Nat.lt_succ_of_lt before)
    have here : (progress file xferSize blocks).bytesSent < expectedSize file := more blocks (Nat.lt_succ_self blocks)
    have limit : expectedSize file < 2 ^ 31 := (toInt_range _).2
    have left : toInt (expectedSize file - (progress file xferSize blocks).bytesSent) =
        expectedSize file - (progress file xferSize blocks).bytesSent := toInt_of_range (by omega) (by omega)
    have chunk : 0 ≤ chunkSize file xferSize (progress file xferSize blocks) ∧
        chunkSize file xferSize (progress file xferSize blocks) ≤ expectedSize file - (progress file xferSize blocks).bytesSent := by
      change 0 ≤ (if toInt (expectedSize file - _) < xferSize then toInt (expectedSize file - _) else xferSize) ∧
        (if toInt (expectedSize file - _) < xferSize then toInt (expectedSize file - _) else xferSize) ≤ _
      rw [left]
      split <;> omega
    change 0 ≤ toInt ((progress file xferSize blocks).bytesSent + chunkSize file xferSize (progress file xferSize blocks))
    rw [toInt_of_range (by omega) (by omega)]
    omega

section Main

variable {pageSize : Option Int} {root : QdaIf} {argv : List Opt} {options : Options} {session : Session} {qdaBuf held : QdaBuf}

theorem prepareDevice_options {file : DfuFile}
    (run : Runs ((prepareDevice pageSize options file root).run qdaBuf) now (.ret (session, held))) :
    session.options = options ∧ session.file = file := by
  obtain ⟨root, _, _, _, _, alternate, _⟩ := (runs_seq _ _ _ _ _).mp run
  obtain ⟨ret, _, _, _, _, settles, _⟩ := (runs_seq _ _ _ _ _).mp alternate
  split at settles
  · exact absurd settles runs_exit
  obtain ⟨_, _, _, _, _, sizes, _⟩ := (runs_seq _ _ _ _ _).mp settles
  split at sizes
  · exact absurd sizes runs_exit
  · obtain ⟨_, same⟩ := (runs_pure _ _).mp sizes
    cases same
    exact ⟨rfl, rfl⟩

theorem prepare_options (run : Runs ((prepare pageSize root argv).run qdaBuf) now (.ret (session, held))) :
    readOptions argv = some session.options := by
  unfold prepare at run
  split at run
  · exact absurd run runs_exit
  next options read =>
    rw [read]
    split at run
    · exact absurd run runs_exit
    split at run
    · exact absurd run runs_exit
    dsimp only at run
    split at run
    · obtain ⟨file, _, _, _, _, device, _⟩ := (runs_seq _ _ _ _ _).mp run
      rw [(prepareDevice_options device).1]
    · rw [(prepareDevice_options run).1]

theorem main_download {value : Int} (read : readOptions argv = some options) (download : options.mode = .download)
    (run : Runs ((main pageSize root argv).run qdaBuf) now (.ret (value, held))) :
    value = 0 ∧ ∃ session early middle late before after sent, now = early ++ (middle ++ late) ∧
      Runs ((prepare pageSize root argv).run qdaBuf) early (.ret (session, before)) ∧
      Runs ((dfuloadDoDnload session.xferSize session.file).run before) middle (.ret (sent, after)) ∧ 0 ≤ sent := by
  obtain ⟨session, before, early, rest, prepared, onward, rfl⟩ := (runs_seq _ _ _ _ _).mp run
  obtain ⟨_, after, middle, late, transferred, finished, rfl⟩ := (runs_seq _ _ _ _ _).mp onward
  have same : session.options = options := by
    have found := prepare_options prepared
    rw [read] at found
    exact (Option.some.inj found).symm
  rw [transfer, same, download] at transferred
  dsimp only [transferDownload] at transferred
  split at transferred
  · exact absurd transferred runs_exit
  · exact absurd transferred runs_exit
  next xferSize decided =>
    obtain rfl : xferSize = session.xferSize := by
      unfold Session.decision at decided
      repeat' split at decided
      all_goals cases decided
      rfl
    obtain ⟨sent, then_, sending, rest, dnload, more, rfl⟩ := (runs_seq _ _ _ _ _).mp transferred
    split at more
    · exact absurd more runs_exit
    next nonneg =>
      obtain ⟨rfl, _⟩ := (runs_pure _ _).mp more
      refine ⟨?_, session, early, sending, late, before, then_, sent, by simp, prepared, dnload, Int.not_lt.mp nonneg⟩
      unfold finish at finished
      split at finished
      · obtain ⟨ret, _, _, _, _, closes, _⟩ := (runs_seq _ _ _ _ _).mp finished
        split at closes
        · exact absurd closes runs_exit
        · obtain ⟨_, _, _, _, _, done, _⟩ := (runs_seq _ _ _ _ _).mp closes
          obtain ⟨_, same⟩ := (runs_pure _ _).mp done
          cases same
          rfl
      · obtain ⟨_, _, _, _, _, done, _⟩ := (runs_seq _ _ _ _ _).mp finished
        obtain ⟨_, same⟩ := (runs_pure _ _).mp done
        cases same
        rfl

end Main

/-- Where a failed download is reported: the program never exits with success, but what is
returned tells success from failure only if no answer and no refused block spoilt the download,
or if a negative transfer size has made the number of bytes negative. -/
theorem failure_reported_iff_undisturbed (qdaBuf : QdaBuf) (now : History Calls) (rest : Program Calls (Int × QdaBuf)) :
    (∀ (file : DfuFile) (xferSize : Int), Runs ((dfuloadDoDnload xferSize file).run qdaBuf) now rest →
        (∀ code, (⟨.exit code, ()⟩ : Event Calls) ∈ now → code ≠ 0) ∧
        ∀ value held, rest = .ret (value, held) →
          (0 ≤ xferSize → ((0 ≤ value → Delivered file xferSize (dialogue now)) ↔ ¬Troubled file xferSize (dialogue now))) ∧
          (xferSize < 0 → ((0 ≤ value → Delivered file xferSize (dialogue now)) ↔ (¬Troubled file xferSize (dialogue now) ∨
            (progress file xferSize (phaseAfter file xferSize (dialogue now)).blocks).bytesSent < 0)))) ∧
    (∀ (pageSize : Option Int) (root : QdaIf) (argv : List Opt) (options : Options), readOptions argv = some options →
      options.mode = .download → Runs ((main pageSize root argv).run qdaBuf) now rest →
        (∀ code, (⟨.exit code, ()⟩ : Event Calls) ∈ now → code ≠ 0) ∧
        ∀ value held, rest = .ret (value, held) →
          value = 0 ∧ ∃ session early middle late before after sent, now = early ++ (middle ++ late) ∧
            Runs ((prepare pageSize root argv).run qdaBuf) early (.ret (session, before)) ∧
            Runs ((dfuloadDoDnload session.xferSize session.file).run before) middle (.ret (sent, after)) ∧ 0 ≤ sent ∧
            (Delivered session.file session.xferSize (dialogue middle) ↔
              ¬Troubled session.file session.xferSize (dialogue middle))) := by
  constructor
  · intro file xferSize run
    refine ⟨fun code member => ?_, ?_⟩
    · have performs : Static.Performs (Within failure Command) (dfuloadDoDnload xferSize file) :=
        dfuloadDoDnload_within (fun _ => id) (.inquiry .getstatus) .dnload _ _
      exact (run.performs (performs qdaBuf)).2 _ member
    · rintro value held rfl
      obtain ⟨delivered, same⟩ := dnload_result run
      rw [← delivered, ← same]
      constructor
      · intro size
        have nonneg : 0 ≤ value := same ▸ progress_nonneg size phaseAfter_more
        exact ⟨fun reported => reported nonneg, fun done _ => done⟩
      · intro _
        by_cases negative : value < 0
        · simp [negative]
        · simp [negative, Int.not_lt.mp negative]
  · intro pageSize root argv options read download run
    refine ⟨fun code member => ?_, ?_⟩
    · have performs : Static.Performs (Within failure Command) (main pageSize root argv) := by
        refine main_within (fun _ => id) fun found same version => ?_
        rw [read] at same
        cases same
        rw [download] at version
        cases version
      exact (run.performs (performs qdaBuf)).2 _ member
    · rintro value held rfl
      obtain ⟨zero, session, early, middle, late, before, after, sent, split, prepared, dnload, nonneg⟩ :=
        main_download read download run
      exact ⟨zero, session, early, middle, late, before, after, sent, split, prepared, dnload, nonneg, (dnload_result dnload).1⟩

theorem good_session_reported :
    (Delivered oneByte 1 (dialogue (singleBlock oneByte 1 QdaBuf.blank)) ↔
      ¬Troubled oneByte 1 (dialogue (singleBlock oneByte 1 QdaBuf.blank))) ∧
    ∀ code, (⟨.exit code, ()⟩ : Event Calls) ∈ goodSession plain stateDfuIdle → code ≠ 0 := by
  have run : Runs ((dfuloadDoDnload 1 oneByte).run QdaBuf.blank) _ _ := oneByte_run QdaBuf.blank (by decide)
  have download := (((failure_reported_iff_undisturbed QdaBuf.blank _ _).1 oneByte 1 run).2 1 _ rfl).1 (by decide)
  have session : Runs ((main none ⟨0, 0, 0, 0, 0, 0, 0⟩ [.download "firmware.bin"]).run QdaBuf.blank) _ _ :=
    plain_run (show Passes stateDfuIdle by decide)
  refine ⟨?_, ((failure_reported_iff_undisturbed QdaBuf.blank _ _).2 none _ _ plain rfl rfl session).1⟩
  rw [← download]
  exact ⟨fun delivered _ => delivered, fun reported => reported (by decide)⟩

/-- The transport refuses the only block, and the download returns that no bytes were sent. -/
theorem refused_block_returns_zero : ∃ now held,
    Runs ((dfuloadDoDnload 1 oneByte).run QdaBuf.blank) now (.ret (0, held)) ∧ ¬Delivered oneByte 1 (dialogue now) := by
  have fits : Fits oneByte 1 := oneByte_fits (by decide)
  have more : More oneByte 1 0 := (fits.more_iff 0).mpr (by decide)
  have short : (blockLength oneByte 1 0).toNat ≤ qdaBufSize - 8 := by
    rw [fits.length_toNat]
    decide
  obtain ⟨request, held, refused⟩ : ∃ request held, Runs ((dfuDownload qdaConf (blockLength oneByte 1 0)
      (progress oneByte 1 0).transaction (blockSource oneByte 1 0)).run QdaBuf.blank) [⟨.send request, (-1 : Int)⟩] (.ret (-1, held)) :=
    ⟨_, _, download_refused QdaBuf.blank short (fits.source 0 more)⟩
  have inside : (progress oneByte 1 0).bytesSent < toInt (oneByte.total - oneByte.suffixSize) := more
  have round : Runs ((dnloadRound oneByte 1 (progress oneByte 1 0)).run QdaBuf.blank) [⟨.send request, (-1 : Int)⟩]
      (.ret (.inr (false, { progress oneByte 1 0 with transaction := (progress oneByte 1 0).transaction + 1 }), held)) := by
    rw [dnloadRound, if_pos inside, ← List.append_nil [_]]
    refine refused.andThen ?_
    rw [if_pos (by decide)]
    exact .here _
  refine ⟨_, _, round.leave.andThen (.here _), ?_⟩
  rintro ⟨_, blocks, ended⟩
  have unacknowledged (request : List UInt8) : ¬(Exchange.mk request none).acknowledged := by simp [Exchange.answers]
  simp only [List.append_nil, dialogue, List.foldl_cons, List.foldl_nil, follow, List.nil_append, phaseAfter, Phase.step,
    if_pos more, if_neg (unacknowledged _)] at ended
  cases ended

end DfuUtilQda.Dfu

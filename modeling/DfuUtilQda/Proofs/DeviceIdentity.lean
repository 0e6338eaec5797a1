import DfuUtilQda.Proofs.DownloadResult

/-! Whether firmware goes to the device it is meant for. The program never asks a
device for its IDs, so what it compares a file's IDs with is whatever its local
variable held, and so is the packet size that bounds the transfer size. -/

namespace DfuUtilQda.Dfu
open Interaction Machine Qda Host

/-- What the switch over the mode comes to, and the transfer size it comes to it with. -/
inductive Course where
  | download (decision : Decision)
  | upload (xferSize : Int)
  | dfuseUpload | detach | unsupported
  deriving DecidableEq

def Session.course (session : Session) : Course :=
  match session.options.mode with
  | .upload => if session.dfuseDevice then .dfuseUpload else .upload session.xferSize
  | .download => .download session.decision
  | .detach => .detach
  | _ => .unsupported

/-- What is done on a course, with the file it is done with. -/
def Course.follow (file : DfuFile) : Course → Host.Code Unit
  | .download .mismatch => Host.exit exIoerr
  | .download .unsupported => Host.exit 1
  | .download (.dnload xferSize) => do if (← dfuloadDoDnload xferSize file) < 0 then Host.exit 1 else return ()
  | .upload xferSize => do
    let fd ← perform (.openNew file.name)
    if fd < 0 then Host.exit exIoerr
    else if (← dfuloadDoUpload xferSize 0 fd) < 0 then Host.exit 1
    else perform (.close fd)
  | .dfuseUpload => do
    let fd ← perform (.openNew file.name)
    if fd < 0 then Host.exit exIoerr else Host.exit 1
  | .detach => do
    let _ ← qdaDfuDetach qdaConf
  | .unsupported => Host.exit exIoerr

theorem transfer_follows (session : Session) : transfer session = session.course.follow session.file := by
  unfold transfer Session.course
  cases session.options.mode with
  | upload =>
    by_cases dfuse : session.dfuseDevice = true
    · simp only [transferUpload, if_pos dfuse, Course.follow]
    · simp only [transferUpload, if_neg dfuse, Course.follow]
  | download =>
    simp only [transferDownload]
    cases session.decision <;> rfl
  | _ => rfl

/-- The file is meant for a device with these IDs. -/
def DfuFile.Meant (file : DfuFile) (vendor product : UInt16) : Prop :=
  (file.idVendor = 0xffff ∨ file.idVendor = vendor) ∧ (file.idProduct = 0xffff ∨ file.idProduct = product)

/-- The same session, had the local variable begun as `root`. -/
def Session.rebase (pageSize : Option Int) (root : QdaIf) (session : Session) : Session :=
  { session with
    root := { root with
      altsetting := session.root.altsetting
      wTransferSize := session.root.wTransferSize
      bcdDFUVersion := session.root.bcdDFUVersion }
    runtimeVendor := root.vendor
    runtimeProduct := root.product
    transferSize := ((requestedSize pageSize session.options.transferSize session.root.wTransferSize).map
      (adjustedSize · root.bMaxPacketSize0)).getD session.transferSize }

section Runs

variable {pageSize : Option Int} {options : Options} {file : DfuFile} {root : QdaIf} {argv : List Opt} {session : Session}
  {qdaBuf held : QdaBuf} {now : History Calls}

theorem getDfuDesc_rebase {found : QdaIf} (run : Runs ((qdaGetDfuDesc qdaConf root).run qdaBuf) now (.ret (some found, held)))
    (other : QdaIf) : Runs ((qdaGetDfuDesc qdaConf other).run qdaBuf) now (.ret (some { other with
      wTransferSize := found.wTransferSize, bcdDFUVersion := found.bcdDFUVersion }, held)) ∧ found.altsetting = root.altsetting := by
  rw [qdaGetDfuDesc, ask_type] at run ⊢
  obtain ⟨ok, kept, early, late, asked, rest, rfl⟩ := (runs_seq _ _ _ _ _).mp run
  cases ok with
  | false =>
    obtain ⟨_, same⟩ := (runs_pure _ _).mp rest
    cases same
  | true =>
    obtain ⟨rfl, same⟩ := (runs_pure _ _).mp rest
    cases same
    exact ⟨asked.andThen (.here _), rfl⟩

theorem openDevice_rebase {found : QdaIf} (run : Runs ((openDevice options root).run qdaBuf) now (.ret (found, held)))
    (other : QdaIf) : Runs ((openDevice options other).run qdaBuf) now (.ret ({ other with
      altsetting := found.altsetting, wTransferSize := found.wTransferSize, bcdDFUVersion := found.bcdDFUVersion }, held)) := by
  obtain ⟨ret, later, rfl, opened⟩ := (runs_perform_seq _ _ _ _ _).mp run
  refine (runs_perform_seq _ _ _ _ _).mpr ⟨ret, later, rfl, ?_⟩
  split at opened
  · exact absurd opened runs_exit
  next accepted =>
    rw [if_neg accepted]
    obtain ⟨rc, kept, early, late, detached, described, rfl⟩ := (runs_seq _ _ _ _ _).mp opened
    refine detached.andThen ?_
    split at described
    · exact absurd described runs_exit
    next going =>
      rw [if_neg going]
      obtain ⟨answer, kept, first, second, asked, rest, rfl⟩ := (runs_seq _ _ _ _ _).mp described
      cases answer with
      | none => exact absurd rest runs_exit
      | some descriptor =>
        obtain ⟨rfl, same⟩ := (runs_pure _ _).mp rest
        cases same
        obtain ⟨again, alternate⟩ := getDfuDesc_rebase asked { other with altsetting := UInt8.ofInt options.matchIfaceAltIndex }
        rw [alternate]
        exact again.andThen (.here _)

theorem prepareDevice_rebase (run : Runs ((prepareDevice pageSize options file root).run qdaBuf) now (.ret (session, held)))
    (other : QdaIf) : Runs ((prepareDevice pageSize options file other).run qdaBuf) now (.ret (session.rebase pageSize other, held)) ∧
      ∃ size, requestedSize pageSize options.transferSize session.root.wTransferSize = some size := by
  obtain ⟨found, kept, early, late, opened, alternate, rfl⟩ := (runs_seq _ _ _ _ _).mp run
  obtain ⟨ret, kept, first, second, chosen, settles, rfl⟩ := (runs_seq _ _ _ _ _).mp alternate
  split at settles
  · exact absurd settles runs_exit
  next accepted =>
    obtain ⟨_, kept, third, fourth, settled, sizes, rfl⟩ := (runs_seq _ _ _ _ _).mp settles
    split at sizes
    · exact absurd sizes runs_exit
    next size requested =>
      obtain ⟨rfl, same⟩ := (runs_pure _ _).mp sizes
      cases same
      refine ⟨(openDevice_rebase opened other).andThen (chosen.andThen ?_), size, requested⟩
      rw [if_neg accepted]
      refine settled.andThen ?_
      simp only [requested, Session.rebase, Option.map_some, Option.getD_some]
      exact .here _

theorem prepare_rebase (run : Runs ((prepare pageSize root argv).run qdaBuf) now (.ret (session, held))) (other : QdaIf) :
    Runs ((prepare pageSize other argv).run qdaBuf) now (.ret (session.rebase pageSize other, held)) ∧
      ∃ size, requestedSize pageSize session.options.transferSize session.root.wTransferSize = some size := by
  unfold prepare at run ⊢
  split at run
  · exact absurd run runs_exit
  next options read =>
    split at run
    · exact absurd run runs_exit
    next version =>
      rw [if_neg version]
      split at run
      · exact absurd run runs_exit
      next mode =>
        rw [if_neg mode]
        dsimp only at run ⊢
        split at run
        next download =>
          rw [if_pos download]
          obtain ⟨file, kept, early, late, read, device, rfl⟩ := (runs_seq _ _ _ _ _).mp run
          obtain ⟨again, sized⟩ := prepareDevice_rebase device other
          rw [← (prepareDevice_options device).1] at sized
          exact ⟨read.andThen again, sized⟩
        next upload =>
          rw [if_neg upload]
          obtain ⟨again, sized⟩ := prepareDevice_rebase run other
          rw [← (prepareDevice_options run).1] at sized
          exact ⟨again, sized⟩

end Runs

section Decision

variable {pageSize : Option Int} {session : Session} {root : QdaIf} {size : UInt32}

/-- The file is for a protocol that is not supported, or the device speaks it. -/
def Session.Dfuse (session : Session) : Prop := session.root.bcdDFUVersion = 0x11a ∨ session.file.bcdDFU = 0x11a

instance : Decidable session.Dfuse :=
  inferInstanceAs (Decidable (session.root.bcdDFUVersion = 0x11a ∨ session.file.bcdDFU = 0x11a))

/-- The file is for any device. -/
def DfuFile.Wild (file : DfuFile) : Prop := file.idVendor = 0xffff ∧ file.idProduct = 0xffff

/-- There is nothing that the device's identity could decide: a download of a file for any
device, or an upload, of which the transfer size is above all packet sizes unless it is
refused for its protocol. -/
def Session.Settled (session : Session) (size : UInt32) : Prop :=
  match session.options.mode with
  | .download => session.file.Wild ∧ (session.Dfuse ∨ 255 ≤ size.toNat)
  | .upload => session.root.bcdDFUVersion = 0x11a ∨ 255 ≤ size.toNat
  | _ => True

theorem rebase_dfuse : ((session.rebase pageSize root).dfuseDevice = true ∨ (session.rebase pageSize root).file.bcdDFU = 0x11a) ↔
    session.Dfuse := or_congr decide_eq_true_iff Iff.rfl

theorem rebase_xferSize (sized : requestedSize pageSize session.options.transferSize session.root.wTransferSize = some size) :
    (session.rebase pageSize root).xferSize = toInt (adjustedSize size root.bMaxPacketSize0).toNat := by
  simp [Session.xferSize, Session.rebase, sized]

theorem decision_wild (wild : session.file.Wild) : (session.rebase pageSize root).decision =
    if session.Dfuse then .unsupported else .dnload (session.rebase pageSize root).xferSize := by
  have matches_ : (session.rebase pageSize root).mismatch = false := by
    simp [Session.mismatch, Session.rebase, wild.1, wild.2]
  unfold Session.decision
  rw [matches_, if_neg (by simp)]
  exact if_congr rebase_dfuse rfl rfl

theorem mismatch_by_root (named : ¬session.file.Wild) :
    (∀ vendor product : UInt16, vendor = session.file.idVendor → product = session.file.idProduct →
      (session.rebase pageSize { root with vendor, product }).decision ≠ .mismatch) ∧
    ∀ vendor product : UInt16, vendor ≠ session.file.idVendor → product ≠ session.file.idProduct →
      (session.rebase pageSize { root with vendor, product }).decision = .mismatch := by
  constructor
  · rintro vendor product rfl rfl
    have matches_ : (session.rebase pageSize { root with
        vendor := session.file.idVendor, product := session.file.idProduct }).mismatch = false := by
      simp [Session.mismatch, Session.rebase]
    unfold Session.decision
    rw [matches_, if_neg (by simp)]
    split <;> simp
  · intro vendor product first second
    have mismatches : (session.rebase pageSize { root with vendor, product }).mismatch = true := by
      simp only [DfuFile.Wild, not_and_or] at named
      refine decide_eq_true ?_
      rcases named with own | own
      · exact ⟨.inl ⟨own, first.symm⟩, .inl ⟨own, first.symm⟩⟩
      · exact ⟨.inr ⟨own, second.symm⟩, .inr ⟨own, second.symm⟩⟩
    unfold Session.decision
    rw [mismatches, if_pos rfl]

theorem adjustedSize_large (large : 255 ≤ size.toNat) (bMaxPacketSize0 : UInt8) : adjustedSize size bMaxPacketSize0 = size := by
  have most := bMaxPacketSize0.toNat_lt
  rw [adjustedSize, if_neg]
  rw [UInt32.lt_iff_toNat_lt, UInt8.toNat_toUInt32]
  omega

theorem adjustedSize_small (small : size.toNat < 255) : adjustedSize size 0 = size ∧ adjustedSize size 255 = 255 := by
  constructor
  · rw [adjustedSize, if_neg]
    rw [UInt32.lt_iff_toNat_lt]
    exact Nat.not_lt_zero _
  · rw [adjustedSize, if_pos]
    · rfl
    · rw [UInt32.lt_iff_toNat_lt]
      exact small

/-- The transfer size is the same whatever the variable held just if it is above all packet sizes. -/
theorem xferSize_settled (sized : requestedSize pageSize session.options.transferSize session.root.wTransferSize = some size) :
    (∀ one two : QdaIf, (session.rebase pageSize one).xferSize = (session.rebase pageSize two).xferSize) ↔ 255 ≤ size.toNat := by
  constructor
  · intro same
    by_contra small
    have equal := same { session.root with bMaxPacketSize0 := 0 } { session.root with bMaxPacketSize0 := 255 }
    have large : (255 : UInt32).toNat = 255 := rfl
    rw [rebase_xferSize sized, rebase_xferSize sized, (adjustedSize_small (by omega)).1, (adjustedSize_small (by omega)).2, large,
      toInt_of_range (by omega) (by omega), toInt_of_range (by omega) (by omega)] at equal
    omega
  · intro large one two
    rw [rebase_xferSize sized, rebase_xferSize sized, adjustedSize_large large, adjustedSize_large large]

/-- All contents of the variable lead to one course just if nothing is left to be decided. -/
theorem course_settled (sized : requestedSize pageSize session.options.transferSize session.root.wTransferSize = some size) :
    (∀ one two : QdaIf, (session.rebase pageSize one).course = (session.rebase pageSize two).course) ↔ session.Settled size := by
  have same_mode (root : QdaIf) : (session.rebase pageSize root).options.mode = session.options.mode := rfl
  simp only [Session.course, same_mode, Session.Settled]
  cases session.options.mode with
  | download =>
    simp only [Course.download.injEq]
    constructor
    · intro same
      have wild : session.file.Wild := by
        by_contra named
        obtain ⟨goes, stops⟩ := @mismatch_by_root pageSize session session.root named
        refine goes _ _ rfl rfl ((same _ _).trans (stops (session.file.idVendor + 1) (session.file.idProduct + 1) ?_ ?_))
        · simp
        · simp
      refine ⟨wild, or_iff_not_imp_left.mpr fun other => (xferSize_settled sized).mp fun one two => ?_⟩
      have equal := same one two
      rw [decision_wild wild, decision_wild wild, if_neg other, if_neg other] at equal
      exact Decision.dnload.inj equal
    · rintro ⟨wild, settled⟩ one two
      rw [decision_wild wild, decision_wild wild]
      by_cases dfuse : session.Dfuse
      · rw [if_pos dfuse, if_pos dfuse]
      · rw [if_neg dfuse, if_neg dfuse, (xferSize_settled sized).mpr (settled.resolve_left dfuse) one two]
  | upload =>
    have same_version (root : QdaIf) : (session.rebase pageSize root).dfuseDevice = session.dfuseDevice := rfl
    simp only [same_version]
    by_cases dfuse : session.dfuseDevice = true
    · simp only [if_pos dfuse, implies_true, true_iff]
      exact .inl (of_decide_eq_true dfuse)
    · simp only [if_neg dfuse, Course.upload.injEq]
      refine (xferSize_settled sized).trans ⟨Or.inr, fun settled => settled.resolve_left fun version => dfuse ?_⟩
      exact decide_eq_true version
  | _ => simp

end Decision

/-- When the right device is made sure of: never by its IDs. The same command line, file and
device lead to one course, and to no firmware for another device, only if there is nothing to
decide: the file is for any device, and the transfer size is above all packet sizes. -/
theorem identity_ensured_iff {pageSize : Option Int} {root : QdaIf} {argv : List Opt} {session : Session} {qdaBuf held : QdaBuf}
    {now : History Calls} (run : Runs ((prepare pageSize root argv).run qdaBuf) now (.ret (session, held))) (vendor product : UInt16) :
    ((∀ other found kept xferSize, Runs ((prepare pageSize other argv).run qdaBuf) now (.ret (found, kept)) →
        found.course = .download (.dnload xferSize) → found.file.Meant vendor product) ∧
      ∀ one two first second left right, Runs ((prepare pageSize one argv).run qdaBuf) now (.ret (first, left)) →
        Runs ((prepare pageSize two argv).run qdaBuf) now (.ret (second, right)) →
        first.course = second.course ∧ transfer first = transfer second) ↔
    ∃ size, requestedSize pageSize session.options.transferSize session.root.wTransferSize = some size ∧ session.Settled size := by
  have again (other : QdaIf) := (prepare_rebase run other).1
  obtain ⟨size, sized⟩ := (prepare_rebase run root).2
  have only {other : QdaIf} {found : Session} {kept : QdaBuf}
      (found_run : Runs ((prepare pageSize other argv).run qdaBuf) now (.ret (found, kept))) : found = session.rebase pageSize other :=
    congrArg Prod.fst (Runs.same_value found_run (again other))
  constructor
  · rintro ⟨_, same⟩
    exact ⟨size, sized, (course_settled sized).mp fun one two => (same _ _ _ _ _ _ (again one) (again two)).1⟩
  · rintro ⟨_, sized, settled⟩
    refine ⟨?_, ?_⟩
    · intro other found kept xferSize found_run goes
      rw [only found_run] at goes ⊢
      have download : session.options.mode = .download := by
        by_contra another
        revert goes
        unfold Session.course
        rw [show (session.rebase pageSize other).options.mode = session.options.mode from rfl]
        split
        · split <;> simp
        · exact absurd ‹_› another
        · simp
        · simp
      rw [Session.Settled, download] at settled
      exact ⟨.inl settled.1.1, .inl settled.1.2⟩
    · intro one two first second left right first_run second_run
      rw [only first_run, only second_run]
      have same := (course_settled sized).mpr settled one two
      refine ⟨same, ?_⟩
      rw [transfer_follows, transfer_follows, same]
      rfl

/-- The options of a download in small blocks. -/
def small : Options := { plain with transferSize := 64 }

theorem prepared_run (root : QdaIf) {argv : List Opt} {options : Options} {size : UInt32} (read : readOptions argv = some options)
    (download : options.mode = .download) (named : options.fileName = "firmware.bin")
    (sized : requestedSize none options.transferSize 1024 = some size) :
    Runs ((prepare none root argv).run QdaBuf.blank)
      (approach options ++ conversation acknowledgement getstatusRequest (statusReport stateDfuIdle dfuStatusOk))
      (.ret (session options root size, statusReport stateDfuIdle dfuStatusOk)) :=
  prepare_run read download named sized (settle_run (by decide))

theorem identity_of_plain_session : ∃ now found kept,
    Runs ((prepare none ⟨0, 0, 0, 0, 0, 0, 0⟩ [.download "firmware.bin"]).run QdaBuf.blank) now (.ret (found, kept)) ∧
    ∀ other found kept xferSize, Runs ((prepare none other [.download "firmware.bin"]).run QdaBuf.blank) now (.ret (found, kept)) →
      found.course = .download (.dnload xferSize) → found.file.Meant 0x8086 0x0001 := by
  have sized : requestedSize none plain.transferSize 1024 = some 1024 := by decide
  have read : readOptions [.download "firmware.bin"] = some plain := rfl
  have run := prepared_run ⟨0, 0, 0, 0, 0, 0, 0⟩ read rfl rfl sized
  exact ⟨_, _, _, run, ((identity_ensured_iff run _ _).mpr ⟨1024, sized, ⟨rfl, rfl⟩, .inr (by decide)⟩).1⟩

/-- Two sessions with the same command line, file and device, and two transfer sizes. -/
theorem transfer_size_from_indeterminate_root : ∃ argv now one two first second left right,
    Runs ((prepare none one argv).run QdaBuf.blank) now (.ret (first, left)) ∧
    Runs ((prepare none two argv).run QdaBuf.blank) now (.ret (second, right)) ∧
    first.course = .download (.dnload 64) ∧ second.course = .download (.dnload 255) := by
  have number : atoi "64".toList = toInt 64 := rfl
  have read : readOptions [.transferSize "64", .download "firmware.bin"] = some small := by
    simp only [readOptions, List.foldlM, Options.take, number, toInt_of_range (show -2 ^ 31 ≤ (64 : Int) by decide) (by decide)]
    rfl
  have sized : requestedSize none small.transferSize 1024 = some 64 := by decide
  have run (root : QdaIf) := prepared_run root read rfl rfl sized
  have goes (root : QdaIf) : (session small root 64).course =
      .download (.dnload (toInt (adjustedSize 64 root.bMaxPacketSize0).toNat)) := by
    have other : ¬((session small root 64).dfuseDevice = true ∨ (session small root 64).file.bcdDFU = 0x11a) := by
      simp [session, Session.dfuseDevice, described, oneByte, DfuFile.unread]
    have matches_ : (session small root 64).mismatch = false := by
      simp [Session.mismatch, session, oneByte, DfuFile.unread]
    have decision : (session small root 64).decision = .dnload (session small root 64).xferSize := by
      unfold Session.decision
      rw [matches_, if_neg (by simp), if_neg other]
    rw [show (session small root 64).course = .download (session small root 64).decision from rfl, decision]
    rfl
  have less : (adjustedSize 64 0).toNat = 64 ∧ (adjustedSize 64 255).toNat = 255 := by decide
  refine ⟨_, _, ⟨0, 0, 0, 0, 0, 0, 0⟩, ⟨0, 0, 0, 0, 0, 0, 255⟩, _, _, _, _, run _, run _, ?_, ?_⟩
  · rw [goes, less.1, toInt_of_range (by decide) (by decide)]
    rfl
  · rw [goes, less.2, toInt_of_range (by decide) (by decide)]
    rfl

end DfuUtilQda.Dfu

import DfuUtilQda.Proofs.DeviceRuns
import DfuUtilQda.Proofs.RequestStream

/-! A session from its command line to the transfer: a file of one byte, and a
device that answers what it is asked. What it reports as its status is left open. -/

namespace DfuUtilQda.Dfu
open Interaction Machine Qda Host

theorem one_size : toSize 1 = 1 := toSize_nat (by decide)

/-- The file of one byte is read. -/
def loading : History Calls :=
  [⟨.openRead "firmware.bin", (3 : Int)⟩, ⟨.seekEnd 3, (1 : Int)⟩, ⟨.seekStart 3, (0 : Int)⟩,
    ⟨.malloc (toSize 1), some ⟨[0], one_size.symm⟩⟩, ⟨.read 3 (toSize 1), some ⟨[0x2a], one_size.ge⟩⟩, ⟨.close 3, ()⟩]

variable {qdaBuf : QdaBuf}

theorem checkFile_run (verbose : Nat) :
    Runs ((checkFile verbose oneByte .maybe .maybe).run qdaBuf) [] (.ret (oneByte, qdaBuf)) := by
  have plain : parseSuffix oneByte = .ok (true, oneByte) := if_pos (by decide)
  have short : probePrefix oneByte = (true, oneByte) := if_pos (by decide)
  simp only [checkFile, plain, short]
  exact .here _

theorem readNamed_run : Runs ((readNamed (DfuFile.zero "firmware.bin").unread).run qdaBuf) loading (.ret (oneByte, qdaBuf)) := by
  have one : toInt 1 = 1 := toInt_of_range (by decide) (by decide)
  refine (runs_perform_seq _ _ _ _ _).mpr ⟨(3 : Int), _, rfl, ?_⟩
  rw [if_neg (by decide)]
  refine (runs_perform_seq _ _ _ _ _).mpr ⟨(1 : Int), _, rfl, ?_⟩
  rw [if_neg (by rw [one]; decide)]
  refine (runs_perform_seq _ _ _ _ _).mpr ⟨(0 : Int), _, rfl, ?_⟩
  rw [if_neg (by decide)]
  dsimp only [dfuMalloc]
  rw [one]
  rw [bind_assoc]
  refine (runs_perform_seq _ _ _ _ _).mpr ⟨some ⟨[0], one_size.symm⟩, _, rfl, ?_⟩
  simp only [pure_bind]
  refine (runs_perform_seq _ _ _ _ _).mpr ⟨some ⟨[0x2a], one_size.ge⟩, _, rfl, ?_⟩
  dsimp only
  rw [if_neg (by decide)]
  exact (runs_perform_seq _ _ _ _ _).mpr ⟨(), [], rfl, .here _⟩

theorem load_run (verbose : Nat) : Runs ((dfuLoadFile verbose (DfuFile.zero "firmware.bin") .maybe .maybe).run qdaBuf) loading
    (.ret (oneByte, qdaBuf)) := by
  rw [dfuLoadFile, if_neg (by decide), ← List.append_nil loading]
  exact readNamed_run.andThen (checkFile_run verbose)

/-- The device's port is opened, and the device says what it is. -/
def opening (options : Options) : History Calls :=
  [⟨.serialIoOpen options.serialDevicePath (toInt options.transferSpeed.toNat), (0 : Int)⟩, ⟨.serialDetach, (0 : Int)⟩] ++
    conversation QdaBuf.blank dfuDescRequest dfuDescriptor

/-- What is known about the device then: nothing but the two fields of its descriptor is its own. -/
def described (options : Options) (root : QdaIf) : QdaIf :=
  { root with altsetting := UInt8.ofInt options.matchIfaceAltIndex, wTransferSize := 1024, bcdDFUVersion := 0x110 }

theorem openDevice_run (options : Options) (root : QdaIf) :
    Runs ((openDevice options root).run QdaBuf.blank) (opening options) (.ret (described options root, dfuDescriptor)) := by
  refine (runs_perform_seq _ _ _ _ _).mpr ⟨(0 : Int), _, rfl, ?_⟩
  rw [if_neg (Int.lt_irrefl 0)]
  have detach : Runs ((qdaDfuDetach qdaConf).run QdaBuf.blank) [⟨.serialDetach, (0 : Int)⟩] (.ret (0, QdaBuf.blank)) := .call (.here _)
  refine detach.andThen ?_
  rw [if_neg (by decide), ← List.append_nil (conversation _ _ _)]
  exact (getDfuDesc_run _ _).andThen (.here _)

/-- Everything up to the status of the device. -/
def approach (options : Options) : History Calls :=
  loading ++ (opening options ++ conversation dfuDescriptor (setAltRequest (UInt8.ofInt options.matchIfaceAltIndex)) acknowledgement)

def session (options : Options) (root : QdaIf) (size : UInt32) : Session where
  options := options
  file := oneByte
  root := described options root
  runtimeVendor := root.vendor
  runtimeProduct := root.product
  transferSize := adjustedSize size root.bMaxPacketSize0

theorem prepare_run {pageSize : Option Int} {root : QdaIf} {argv : List Opt} {options : Options} {size : UInt32} {held : QdaBuf}
    {reports : History Calls} (read : readOptions argv = some options) (download : options.mode = .download)
    (named : options.fileName = "firmware.bin") (sized : requestedSize pageSize options.transferSize 1024 = some size)
    (settles : Runs (settleStatus.run acknowledgement) reports (.ret ((), held))) :
    Runs ((prepare pageSize root argv).run QdaBuf.blank) (approach options ++ reports) (.ret (session options root size, held)) := by
  simp only [prepare, read, download, named]
  rw [approach, List.append_assoc]
  refine (load_run _).andThen ?_
  rw [List.append_assoc]
  refine (openDevice_run options root).andThen ?_
  refine (setAltSetting_run _ _).andThen ?_
  rw [if_neg (by decide), ← List.append_nil reports]
  refine settles.andThen ?_
  simp only [described, sized]
  exact .here _

/-- A state with which the program leaves its status loop. -/
def Passes (bState : UInt8) : Prop :=
  ¬(bState = stateAppIdle ∨ bState = stateAppDetach) ∧ bState ≠ stateDfuError ∧
    ¬(bState = stateDfuDnloadIdle ∨ bState = stateDfuUploadIdle)

instance (bState : UInt8) : Decidable (Passes bState) := inferInstanceAs (Decidable (_ ∧ _ ∧ _))

theorem main_begins {pageSize : Option Int} {root : QdaIf} {argv : List Opt} {found : Session} {held : QdaBuf} {now : History Calls}
    (prepared : Runs ((prepare pageSize root argv).run qdaBuf) now (.ret (found, held))) :
    ∃ rest, Runs ((main pageSize root argv).run qdaBuf) now rest := by
  rw [main, StateT.run_bind]
  exact ⟨_, prepared.bind _⟩

theorem settle_run {bState : UInt8} (passes : Passes bState) :
    Runs (settleStatus.run qdaBuf) (conversation qdaBuf getstatusRequest (statusReport bState dfuStatusOk))
      (.ret ((), statusReport bState dfuStatusOk)) := by
  obtain ⟨app, fine, idle⟩ := passes
  have round : Runs ((statusRound ()).run qdaBuf) (conversation qdaBuf getstatusRequest (statusReport bState dfuStatusOk))
      (.ret (.inr ⟨dfuStatusOk, 0, bState⟩, statusReport bState dfuStatusOk)) := by
    rw [← List.append_nil (conversation _ _ _)]
    refine (getStatus_run _ _ _).andThen ?_
    simp only [milliSleep, ne_eq, not_true, if_false, pure_bind]
    rw [if_neg app, if_neg fine, if_neg idle]
    exact .here _
  rw [← List.append_nil (conversation _ _ _)]
  refine round.leave.andThen ?_
  rw [retryStatus, if_neg (by simp)]
  exact .here _

theorem settle_again {held after : QdaBuf} {early late : History Calls}
    (round : Runs ((statusRound ()).run qdaBuf) early (.ret (.inl (), held)))
    (settles : Runs (settleStatus.run held) late (.ret ((), after))) :
    Runs (settleStatus.run qdaBuf) (early ++ late) (.ret ((), after)) := by
  obtain ⟨dst, between, first, second, loop, retry, rfl⟩ := (runs_seq _ _ _ _ _).mp settles
  rw [← List.append_assoc]
  exact (round.again loop).andThen retry

/-- A whole session in which the device reports one state and takes everything. -/
def goodSession (options : Options) (bState : UInt8) : History Calls :=
  approach options ++ conversation acknowledgement getstatusRequest (statusReport bState dfuStatusOk) ++
    (singleBlock oneByte 1024 (statusReport bState dfuStatusOk) ++ [⟨.serialIoClose, ()⟩])

/-- What the device has been asked when the transfer begins. -/
def inquiries (options : Options) (bState : UInt8) : List Exchange :=
  [⟨dfuDescRequest, some dfuDescriptor⟩, ⟨setAltRequest (UInt8.ofInt options.matchIfaceAltIndex), some acknowledgement⟩,
    ⟨getstatusRequest, some (statusReport bState dfuStatusOk)⟩]

theorem goodSession_dialogue (options : Options) (bState : UInt8) : dialogue (goodSession options bState) =
    inquiries options bState ++ dialogue (singleBlock oneByte 1024 (statusReport bState dfuStatusOk)) := by
  have fits : Fits oneByte 1024 := oneByte_fits (by decide)
  have begins : dialogue (loading ++ [⟨.serialIoOpen options.serialDevicePath (toInt options.transferSpeed.toNat), (0 : Int)⟩,
      ⟨.serialDetach, (0 : Int)⟩]) = [] := rfl
  have asked : dialogue (approach options ++ conversation acknowledgement getstatusRequest (statusReport bState dfuStatusOk)) =
      inquiries options bState := by
    rw [dialogue_conversation, approach, ← List.append_assoc, dialogue_conversation, opening, ← List.append_assoc,
      dialogue_conversation, begins]
    rfl
  rw [goodSession, ← List.append_assoc, dialogue_aside _ ⟨by simp, by simp⟩, dialogue_singleBlock _ fits, singleBlock,
    ← List.append_assoc, dialogue_imageEnded _ _ fits, dialogue_blockTaken _ _ fits, asked, List.append_assoc]
  rfl

theorem good_run {root : QdaIf} {argv : List Opt} {options : Options} {bState : UInt8} (passes : Passes bState)
    (read : readOptions argv = some options) (download : options.mode = .download) (named : options.fileName = "firmware.bin")
    (sized : options.transferSize = 0) (stays : options.finalReset = false) :
    Runs ((main none root argv).run QdaBuf.blank) (goodSession options bState)
      (.ret (0, statusReport stateDfuIdle dfuStatusOk)) := by
  have size : requestedSize none options.transferSize 1024 = some 1024 := by
    rw [sized]
    decide
  have large : (session options root 1024).transferSize = 1024 := by
    have most := root.bMaxPacketSize0.toNat_lt
    rw [session, adjustedSize, if_neg]
    rw [UInt32.lt_iff_toNat_lt, UInt8.toNat_toUInt32]
    exact Nat.not_lt.mpr (Nat.le_trans most.le (by decide))
  have whole : (session options root 1024).xferSize = 1024 := by
    rw [Session.xferSize, large]
    exact toInt_of_range (by decide) (by decide)
  refine (prepare_run read download named size (settle_run passes)).andThen ?_
  have decided : (session options root 1024).decision = .dnload 1024 := by
    rw [Session.decision, whole]
    simp [Session.mismatch, session, oneByte, DfuFile.unread, Session.dfuseDevice, described, DfuFile.zero]
  have transferred : Runs ((transfer (session options root 1024)).run (statusReport bState dfuStatusOk))
      (singleBlock oneByte 1024 (statusReport bState dfuStatusOk)) (.ret ((), statusReport stateDfuIdle dfuStatusOk)) := by
    have mode : (session options root 1024).options.mode = .download := download
    simp only [transfer, mode, transferDownload, decided]
    rw [← List.append_nil (singleBlock _ _ _)]
    exact (oneByte_run _ (by decide)).andThen (.here _)
  refine transferred.andThen ?_
  have mode : (session options root 1024).options.finalReset = false := stays
  rw [finish, mode]
  exact .call (.here _)

/-- The options of a plain download. -/
def plain : Options := { mode := .download, fileName := "firmware.bin" }

theorem plain_run {root : QdaIf} {bState : UInt8} (passes : Passes bState) :
    Runs ((main none root [.download "firmware.bin"]).run QdaBuf.blank) (goodSession plain bState)
      (.ret (0, statusReport stateDfuIdle dfuStatusOk)) := good_run passes rfl rfl rfl rfl rfl

end DfuUtilQda.Dfu

import DfuUtilQda.Dfu.Main
import DfuUtilQda.Proofs.DeviceCalls
import DfuUtilQda.Proofs.FileCalls

/-! Which operations the parts of the program perform. Files are read and written
without the device, and the program exits with zero only to print its version. -/

namespace DfuUtilQda.Dfu
open Interaction Machine Qda Host

/-- An operation that neither involves the device nor exits with success. -/
def Local (op : Op) : Prop := Aside op ∧ op ≠ .exit 0

/-- What may be handed to the transport, and the codes that the program may exit with. -/
def Within (codes : Nat → Prop) (fine : List UInt8 → Prop) : Op → Prop
  | .send data => fine data
  | .exit code => codes code
  | _ => True

/-- The requests by which the program comes to know a device and to settle its status. -/
inductive Inquiry : List UInt8 → Prop where
  | dfuDesc : Inquiry dfuDescRequest
  | setAlt (alt : UInt8) : Inquiry (setAltRequest alt)
  | getstatus : Inquiry getstatusRequest
  | getstate : Inquiry getstateRequest
  | abort : Inquiry abortRequest

/-- All the requests that the program makes. -/
inductive Command : List UInt8 → Prop where
  | inquiry {request : List UInt8} (inquiry : Inquiry request) : Command request
  | dnload (len transaction : UInt16) (bytes : List UInt8) : Command (dnloadRequest len transaction bytes)
  | upload (len transaction : UInt16) : Command (uploadRequest len transaction)
  | reset : Command resetRequest

variable {allowed : Op → Prop} {codes : Nat → Prop} {fine : List UInt8 → Prop} {α : Type}

theorem Local.within (failures : ∀ code, code ≠ 0 → codes code) (op : Op) (local_ : Local op) : Within codes fine op := by
  cases op with
  | send data => exact absurd rfl (local_.1.1 data)
  | exit code =>
    refine failures code fun zero => local_.2 ?_
    rw [zero]
  | _ => trivial

theorem Within.mono {wider : List UInt8 → Prop} (implies : ∀ data, fine data → wider data) (op : Op)
    (within : Within codes fine op) : Within codes wider op := by
  cases op with
  | send data => exact implies data within
  | _ => exact within

theorem local_exit {code : Nat} (failure : code ≠ 0) : Local (.exit code) := ⟨⟨by simp, by simp⟩, by simpa using failure⟩

section Files

private theorem perform_local {op : Op} (local_ : Local op) : Static.Performs Local (Host.perform op) := .perform local_

theorem dfuMalloc_local (size : Int) : Static.Performs Local (dfuMalloc size) := by
  refine .bind (perform_local (by simp [Local, Aside])) fun answer => ?_
  split
  · exact .pure _
  · exact performs_exit (local_exit (by decide))

theorem dfuFileWriteCrc_local (f : Int) (crc : UInt32) (buf : List UInt8) : Static.Performs Local (dfuFileWriteCrc f crc buf) := by
  refine .bind (perform_local (by simp [Local, Aside])) fun written => ?_
  split
  · exact performs_exit (local_exit (by decide))
  · exact .pure _

theorem readStdin_local (file : DfuFile) : Static.Performs Local (readStdin file) := by
  refine .bind (dfuMalloc_local _) fun block => ?_
  refine .bind (perform_local (by simp [Local, Aside])) fun chunk => ?_
  refine .loop fun ⟨file, lastRead⟩ => ?_
  unfold stdinRound
  dsimp only
  split
  · refine .bind (perform_local (by simp [Local, Aside])) fun answer => ?_
    split
    · exact performs_exit (local_exit (by decide))
    · refine .bind (perform_local (by simp [Local, Aside])) fun chunk => ?_
      split
      · exact fun _ => ⟨by simp [Local, Aside], fun _ => trivial⟩
      · exact .pure _
  · exact .pure _

theorem readNamed_local (file : DfuFile) : Static.Performs Local (readNamed file) := by
  have fails {α : Type} : Static.Performs Local (Host.exit exIoerr : Host.Code α) := performs_exit (local_exit (by decide))
  refine .bind (perform_local (by simp [Local, Aside])) fun f => ?_
  split
  · exact fails
  refine .bind (perform_local (by simp [Local, Aside])) fun offset => ?_
  split
  · exact fails
  refine .bind (perform_local (by simp [Local, Aside])) fun start => ?_
  split
  · exact fails
  refine .bind (dfuMalloc_local _) fun firmware => ?_
  refine .bind (perform_local (by simp [Local, Aside])) fun bytes => ?_
  split
  · exact fails
  split
  · exact fails
  exact .bind (perform_local (by simp [Local, Aside])) fun _ => .pure _

theorem checkFile_local (verbose : Nat) (file : DfuFile) (checkSuffix : SuffixReq) (checkPrefix : PrefixReq) :
    Static.Performs Local (checkFile verbose file checkSuffix checkPrefix) :=
  checkFile_performs (fun _ failure => local_exit failure) (fun _ => by simp [Local, Aside])

theorem dfuLoadFile_local (verbose : Nat) (file : DfuFile) (checkSuffix : SuffixReq) (checkPrefix : PrefixReq) :
    Static.Performs Local (dfuLoadFile verbose file checkSuffix checkPrefix) := by
  unfold dfuLoadFile
  split
  · exact .bind (readStdin_local _) fun _ => checkFile_local _ _ _ _
  · exact .bind (readNamed_local _) fun _ => checkFile_local _ _ _ _

end Files

section Device

theorem fault_within : Static.Performs (Within codes fine) (Qda.fault : Host.Code α) := fun _ => ⟨trivial, fun _ => trivial⟩

theorem ask_within {request : List UInt8} {expected : UInt32} (fits : request.length ≤ qdaBufSize) (known : fine request) :
    Static.Performs (Within codes fine) (ask qdaConf request expected) := by
  intro qdaBuf
  rw [ask_tree _ _ _ fits]
  refine ⟨known, fun rc => ?_⟩
  dsimp only
  split
  · trivial
  · exact ⟨trivial, fun _ => trivial⟩

theorem simpleRequest_within {type : UInt32} (known : fine (packet type [])) :
    Static.Performs (Within codes fine) (simpleRequest qdaConf type) := by
  rw [simpleRequest, ask_type]
  refine .bind (ask_within (by simp [qdaBufSize]) known) fun ok => ?_
  split <;> exact .pure _

theorem getstatus_within (known : fine getstatusRequest) : Static.Performs (Within codes fine) (dfuGetStatus qdaConf) := by
  rw [dfuGetStatus, qdaDfuGetstatus, ask_type]
  refine .bind (ask_within (by simp [qdaBufSize]) known) fun ok => ?_
  split
  · exact .bind .get fun _ => .pure _
  · exact .pure _

theorem clearStatus_within (known : fine getstateRequest) : Static.Performs (Within codes fine) (dfuClearStatus qdaConf) := by
  rw [dfuClearStatus, qdaDfuGetstate, ask_type]
  refine .bind (ask_within (by simp [qdaBufSize]) known) fun ok => ?_
  split
  · exact .bind .get fun _ => .pure _
  · exact .pure _

theorem getDfuDesc_within (known : fine dfuDescRequest) (dif : QdaIf) :
    Static.Performs (Within codes fine) (qdaGetDfuDesc qdaConf dif) := by
  rw [qdaGetDfuDesc, ask_type]
  refine .bind (ask_within (by simp [qdaBufSize]) known) fun ok => ?_
  split
  · exact .bind .get fun _ => .pure _
  · exact .pure _

theorem setAltSetting_within {alt : UInt8} (known : fine (setAltRequest alt)) :
    Static.Performs (Within codes fine) (qdaSetAltSetting qdaConf alt) := by
  rw [qdaSetAltSetting, ask_alt]
  refine .bind (ask_within (by simp [qdaBufSize]) known) fun ok => ?_
  split <;> exact .pure _

theorem detach_performs (fine : allowed .serialDetach) : Static.Performs allowed (qdaDfuDetach qdaConf) := by
  have detaches : Program.Performs allowed qdaConf.detach := ⟨fine, fun _ => trivial⟩
  refine .bind (.lift detaches) fun rc => ?_
  split <;> exact .pure _

theorem download_within {len transaction : UInt16} (known : ∀ bytes, fine (dnloadRequest len transaction bytes)) (data : Pointer) :
    Static.Performs (Within codes fine) (dfuDownload qdaConf len transaction data) := by
  rw [dfuDownload, qdaDfuDownload_eq]
  split
  · exact .bind (.modify _) fun _ => .pure _
  next room =>
    split
    · exact .bind (.modify _) fun _ => fault_within
    next bytes loaded =>
      have count := Pointer.load_length loaded
      refine .bind (ask_within ?_ (known bytes)) fun ok => ?_
      · simp only [packet_length, blockPayload_length, qdaBufSize] at room ⊢
        omega
      · split <;> exact .pure _

theorem upload_within {len transaction : UInt16} (known : fine (uploadRequest len transaction)) (data : List UInt8) :
    Static.Performs (Within codes fine) (dfuUpload qdaConf len transaction data) := by
  rw [dfuUpload, qdaDfuUpload, ask_block]
  refine .bind (ask_within (by simp [qdaBufSize]) known) fun ok => ?_
  split
  · refine .bind .get fun _ => ?_
    dsimp only
    split
    · exact .pure _
    split
    · exact fault_within
    split
    · exact fault_within
    · exact .pure _
  · exact .pure _

theorem reset_within (known : fine resetRequest) : Static.Performs (Within codes fine) (qdaReset qdaConf) := by
  have onward (stored : QdaBuf) (request : stored.bytes.take 4 = resetRequest) :
      Static.Performs (Within codes fine) (do
        let rc ← qdaConf.send (stored.bytes.take 4)
        if rc < 0 then return -1
        else
          let answer ← qdaConf.receive stored
          set answer.2
          if toInt answer.1 ≥ qdaBufSize then return -1
          else if answer.2.type ≠ qdaPktAck then return -1
          else return 0 : Host.Code Int) := by
    rw [request]
    refine .bind (.lift ⟨known, fun _ => trivial⟩) fun rc => ?_
    split
    · exact .pure _
    refine .bind (.lift ⟨trivial, fun _ => trivial⟩) fun answer => .bind (.set _) fun _ => ?_
    split
    · exact .pure _
    · split <;> exact .pure _
  intro qdaBuf
  refine onward (qdaBuf.store32 0 qdaPktReset) ?_ (qdaBuf.store32 0 qdaPktReset)
  rw [store_type]
  exact QdaBuf.take_store qdaBuf resetRequest (by simp [resetRequest, qdaBufSize])

end Device

section Program

private theorem fails (failures : ∀ code, code ≠ 0 → codes code) {code : Nat} (failure : code ≠ 0) :
    Static.Performs (Within codes fine) (Host.exit code : Host.Code α) := performs_exit (failures code failure)

theorem milliSleep_within (ms : UInt32) : Static.Performs (Within codes fine) (Host.milliSleep ms) := by
  unfold Host.milliSleep
  split
  · exact .perform trivial
  · exact .pure _

variable (failures : ∀ code, code ≠ 0 → codes code)
include failures

theorem pollStatus_within (known : fine getstatusRequest) : Static.Performs (Within codes fine) pollStatus := by
  refine .loop fun _ => .bind (getstatus_within known) fun reported => ?_
  split
  · exact fails failures (by decide)
  · split
    · exact .pure _
    · exact .bind (milliSleep_within _) fun _ => .pure _

theorem dfuloadDoDnload_within (asks : fine getstatusRequest) (sends : ∀ len transaction bytes, fine (dnloadRequest len transaction bytes))
    (xferSize : Int) (file : DfuFile) : Static.Performs (Within codes fine) (dfuloadDoDnload xferSize file) := by
  have round (s : Progress) : Static.Performs (Within codes fine) (dnloadRound file xferSize s) := by
    unfold dnloadRound
    split
    · refine .bind (download_within (sends _ _) _) fun ret => ?_
      dsimp only
      split
      · exact .pure _
      · refine .bind (pollStatus_within failures asks) fun dst => ?_
        split <;> exact .pure _
    · exact .pure _
  have manifests : Static.Performs (Within codes fine) awaitManifest := by
    refine .loop fun _ => .bind (getstatus_within asks) fun reported => ?_
    split
    · exact .pure _
    · refine .bind (milliSleep_within _) fun _ => ?_
      split
      · exact .bind (milliSleep_within _) fun _ => .pure _
      · exact .pure _
  refine .bind (.loop round) fun ⟨complete, s⟩ => ?_
  dsimp only
  split
  · refine .bind (download_within (sends _ _) _) fun ret => ?_
    split
    · exact fails failures (by decide)
    · exact .bind manifests fun _ => .pure _
  · exact .pure _

theorem dfuloadDoUpload_within {xferSize : Int} (asks : ∀ transaction, fine (uploadRequest (UInt16.ofInt xferSize) transaction))
    (expectedSize fd : Int) :
    Static.Performs (Within codes fine) (dfuloadDoUpload xferSize expectedSize fd) := by
  refine .bind ((dfuMalloc_local _).mono (Local.within failures)) fun buf => ?_
  refine .bind (.loop fun s => .bind (upload_within (asks _) _) fun ⟨rc, buf⟩ => ?_) fun ⟨totalBytes, ret⟩ => ?_
  · dsimp only
    split
    · exact .pure _
    refine .bind ((dfuFileWriteCrc_local _ _ _).mono (Local.within failures)) fun _ => ?_
    split
    · exact fails failures (by decide)
    split <;> exact .pure _
  · dsimp only
    split
    · exact fails failures (by decide)
    · exact .pure _

theorem openDevice_within (known : fine dfuDescRequest) (options : Options) (root : QdaIf) :
    Static.Performs (Within codes fine) (openDevice options root) := by
  refine .bind (.perform trivial) fun ret => ?_
  split
  · exact fails failures (by decide)
  refine .bind (detach_performs trivial) fun ret => ?_
  split
  · exact fails failures (by decide)
  refine .bind (getDfuDesc_within known _) fun found => ?_
  split
  · exact fails failures (by decide)
  · exact .pure _

theorem settleStatus_within (status : fine getstatusRequest) (state : fine getstateRequest) (abort : fine abortRequest) :
    Static.Performs (Within codes fine) settleStatus := by
  have round (start : Unit) : Static.Performs (Within codes fine) (statusRound start) := by
    refine .bind (getstatus_within status) fun reported => ?_
    split
    · exact fails failures (by decide)
    refine .bind (milliSleep_within _) fun _ => ?_
    split
    · exact fails failures (by decide)
    split
    · refine .bind (clearStatus_within state) fun ret => ?_
      split
      · exact fails failures (by decide)
      · exact .pure _
    split
    · refine .bind (simpleRequest_within abort) fun ret => ?_
      split
      · exact fails failures (by decide)
      · exact .pure _
    · exact .pure _
  refine .bind (.loop round) fun found => ?_
  unfold retryStatus
  split
  · refine .bind (clearStatus_within state) fun ret => ?_
    split
    · exact fails failures (by decide)
    refine .bind (getstatus_within status) fun reported => ?_
    split
    · exact fails failures (by decide)
    split
    · exact fails failures (by decide)
    · exact milliSleep_within _
  · exact .pure _

theorem prepareDevice_within (pageSize : Option Int) (options : Options) (file : DfuFile) (root : QdaIf) :
    Static.Performs (Within codes Inquiry) (prepareDevice pageSize options file root) := by
  refine .bind (openDevice_within failures .dfuDesc _ _) fun root => .bind (setAltSetting_within (.setAlt _)) fun ret => ?_
  split
  · exact fails failures (by decide)
  refine .bind (settleStatus_within failures .getstatus .getstate .abort) fun _ => ?_
  split
  · exact fails failures (by decide)
  · exact .pure _

theorem prepare_within {pageSize : Option Int} {root : QdaIf} {argv : List Opt}
    (version : ∀ options, readOptions argv = some options → options.mode = .version → codes 0) :
    Static.Performs (Within codes Inquiry) (prepare pageSize root argv) := by
  unfold prepare
  split
  · exact fails failures (by decide)
  next options read =>
    split
    next asked => exact performs_exit (version options read asked)
    split
    · exact fails failures (by decide)
    dsimp only
    split
    · exact .bind ((dfuLoadFile_local _ _ _ _).mono (Local.within failures)) fun file => prepareDevice_within failures _ _ _ _
    · exact prepareDevice_within failures _ _ _ _

theorem transfer_within (status : fine getstatusRequest) (dnload : ∀ len transaction bytes, fine (dnloadRequest len transaction bytes))
    (upload : ∀ len transaction, fine (uploadRequest len transaction)) (session : Session) :
    Static.Performs (Within codes fine) (transfer session) := by
  unfold transfer
  split
  · refine .bind (.perform trivial) fun fd => ?_
    split
    · exact fails failures (by decide)
    split
    · exact fails failures (by decide)
    refine .bind (dfuloadDoUpload_within failures (upload _) _ _) fun ret => ?_
    split
    · exact fails failures (by decide)
    · exact .perform trivial
  · unfold transferDownload
    split
    · exact fails failures (by decide)
    · exact fails failures (by decide)
    refine .bind (dfuloadDoDnload_within failures status dnload _ _) fun ret => ?_
    split
    · exact fails failures (by decide)
    · exact .pure _
  · exact .bind (detach_performs trivial) fun _ => .pure _
  · exact fails failures (by decide)

theorem finish_within (known : fine resetRequest) (session : Session) : Static.Performs (Within codes fine) (finish session) := by
  unfold finish
  split
  · refine .bind (reset_within known) fun ret => ?_
    split
    · exact fails failures (by decide)
    · exact .bind (.perform trivial) fun _ => .pure _
  · exact .bind (.perform trivial) fun _ => .pure _

theorem main_within {pageSize : Option Int} {root : QdaIf} {argv : List Opt}
    (version : ∀ options, readOptions argv = some options → options.mode = .version → codes 0) :
    Static.Performs (Within codes Command) (main pageSize root argv) :=
  .bind ((prepare_within failures version).mono (Within.mono fun _ => .inquiry)) fun session =>
    .bind (transfer_within failures (.inquiry .getstatus) .dnload .upload session) fun _ => finish_within failures .reset session

end Program

end DfuUtilQda.Dfu

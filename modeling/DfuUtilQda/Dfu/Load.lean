import DfuUtilQda.Dfu.File

/-! The transfer routines: a firmware image in blocks, each answered by the
device's status, and after the last one the wait for the device to manifest it. -/

namespace DfuUtilQda.Dfu
open Interaction Machine Qda Host

def dfuStatusOk : UInt8 := 0x00

def stateAppIdle : UInt8 := 0
def stateAppDetach : UInt8 := 1
def stateDfuIdle : UInt8 := 2
def stateDfuDnloadIdle : UInt8 := 5
def stateDfuManifestSync : UInt8 := 6
def stateDfuManifest : UInt8 := 7
def stateDfuUploadIdle : UInt8 := 9
def stateDfuError : UInt8 := 10

/-- The local variables of the upload loop. -/
structure Upload where
  totalBytes : Int
  transaction : UInt16
  buf : List UInt8

/-- `dfu_upload`: the length asked for, the block number, and the caller's buffer. -/
abbrev Uploader := UInt16 → UInt16 → List UInt8 → Host.Code (Int × List UInt8)

/-- One round of the upload loop, which leaves with the number of bytes and what is to be returned. -/
def uploadRoundWith (upload : Uploader) (xferSize fd : Int) (s : Upload) : Host.Code (Upload ⊕ (Int × Int)) := do
  let (rc, buf) ← upload (UInt16.ofInt xferSize) s.transaction s.buf
  if rc < 0 then return .inr (s.totalBytes, rc)
  else
    let _ ← dfuFileWriteCrc fd 0 (buf.take rc.toNat)
    let totalBytes := toInt (s.totalBytes + rc)
    if totalBytes < 0 then Host.exit exSoftware
    else if rc < xferSize then return .inr (totalBytes, 0)
    else return .inl { totalBytes, transaction := s.transaction + 1, buf }

def dfuloadDoUploadWith (upload : Uploader) (xferSize expectedSize fd : Int) : Host.Code Int := do
  let buf ← dfuMalloc xferSize
  let (totalBytes, ret) ← Static.loop (uploadRoundWith upload xferSize fd) ⟨0, 0, buf⟩
  if expectedSize ≠ 0 ∧ totalBytes ≠ expectedSize then Host.exit exSoftware
  else return ret

/-- The routine of the program, over the one upload request it is built with. -/
def dfuloadDoUpload (xferSize expectedSize fd : Int) : Host.Code Int :=
  dfuloadDoUploadWith (dfuUpload qdaConf) xferSize expectedSize fd

/-- The local variables of the block loop. -/
structure Progress where
  bytesSent : Int
  buf : Pointer
  transaction : UInt16

/-- Waits until the device has taken a block or failed to. -/
def pollStatus : Host.Code DfuStatus :=
  Static.loop (fun _ : Unit => do
    match ← dfuGetStatus qdaConf with
    | none => Host.exit exIoerr
    | some dst =>
      if dst.bState = stateDfuDnloadIdle ∨ dst.bState = stateDfuError then return .inr dst
      else
        milliSleep dst.bwPollTimeout
        return .inl ()) ()

def chunkSize (file : DfuFile) (xferSize : Int) (s : Progress) : Int :=
  let expectedSize := toInt (file.total - file.suffixSize)
  let bytesLeft := toInt (expectedSize - s.bytesSent)
  if bytesLeft < xferSize then bytesLeft else xferSize

/-- One round of the block loop. It leaves with `true` when nothing is left to be
sent, and with `false` where the C function goes to `out`. -/
def dnloadRound (file : DfuFile) (xferSize : Int) (s : Progress) : Host.Code (Progress ⊕ (Bool × Progress)) := do
  if s.bytesSent < toInt (file.total - file.suffixSize) then
    let chunk := chunkSize file xferSize s
    let ret ← dfuDownload qdaConf (UInt16.ofInt chunk) s.transaction (if chunk ≠ 0 then s.buf else Pointer.null)
    let s := { s with transaction := s.transaction + 1 }
    if ret < 0 then return .inr (false, s)
    else
      let s := { s with bytesSent := toInt (s.bytesSent + chunk), buf := s.buf.advance chunk }
      let dst ← pollStatus
      if dst.bStatus ≠ dfuStatusOk then return .inr (false, s)
      else return .inl s
  else return .inr (true, s)

/-- Waits while the device manifests the firmware. What it reports in the end is
not looked at, nor is a failure to report anything. -/
def awaitManifest : Host.Code Unit :=
  Static.loop (fun _ : Unit => do
    match ← dfuGetStatus qdaConf with
    | none => return .inr ()
    | some dst =>
      milliSleep dst.bwPollTimeout
      if dst.bState = stateDfuManifestSync ∨ dst.bState = stateDfuManifest then
        milliSleep 1000
        return .inl ()
      else return .inr ()) ()

def Progress.start (file : DfuFile) : Progress where
  bytesSent := 0
  buf := ⟨file.firmware, 0⟩
  transaction := 0

def dfuloadDoDnload (xferSize : Int) (file : DfuFile) : Host.Code Int := do
  let (complete, s) ← Static.loop (dnloadRound file xferSize) (Progress.start file)
  if complete then
    let ret ← dfuDownload qdaConf 0 s.transaction Pointer.null
    if ret < 0 then Host.exit exIoerr
    else
      awaitManifest
      return s.bytesSent
  else return s.bytesSent

end DfuUtilQda.Dfu

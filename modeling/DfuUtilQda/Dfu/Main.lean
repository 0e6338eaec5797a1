import DfuUtilQda.Dfu.Load
import DfuUtilQda.Machine.Numerals

/-! The program: its options, the way to a device in DFU mode, and the transfer. -/

namespace DfuUtilQda.Dfu
open Interaction Machine Qda Host

inductive Mode where
  | none | version | list | detach | upload | download
  deriving DecidableEq

/-- What `getopt_long` can return for the option table of the QDA build. -/
inductive Opt where
  | help | version | verbose | list
  | path (optarg : String)
  | alt (optarg : String)
  | transferSize (optarg : String)
  | upload (optarg : String)
  | download (optarg : String)
  | reset
  | speed (optarg : String)
  | unknown
  deriving DecidableEq

structure Options where
  mode : Mode := .none
  verbose : Nat := 0
  serialDevicePath : Option String := Option.none
  matchIfaceAltIndex : Int := -1
  transferSize : UInt32 := 0
  transferSpeed : UInt32 := 115200
  fileName : String := ""
  finalReset : Bool := false
  deriving DecidableEq

/-- One option of the command line; `none` when it prints the help text and exits. -/
def Options.take (options : Options) : Opt → Option Options
  | .help | .unknown => Option.none
  | .version => some { options with mode := .version }
  | .verbose => some { options with verbose := options.verbose + 1 }
  | .list => some { options with mode := .list }
  | .path optarg => some { options with serialDevicePath := some optarg }
  | .alt optarg =>
    let (index, rest) := strtoul optarg.toList
    some { options with matchIfaceAltIndex := if rest = [] then toInt index else -1 }
  | .transferSize optarg => some { options with transferSize := UInt32.ofInt (atoi optarg.toList) }
  | .upload optarg => some { options with mode := .upload, fileName := optarg }
  | .download optarg => some { options with mode := .download, fileName := optarg }
  | .reset => some { options with finalReset := true }
  | .speed optarg => some { options with transferSpeed := UInt32.ofInt (atoi optarg.toList) }

def readOptions (argv : List Opt) : Option Options := argv.foldlM Options.take {}

/-- `file` after `memset`. -/
def DfuFile.zero (name : String) : DfuFile where
  name := name
  firmware := []
  total := 0
  prefixSize := 0
  suffixSize := 0
  lmdfuAddress := 0
  prefixType := .zero
  dwCRC := 0
  bcdDFU := 0
  idVendor := 0
  idProduct := 0
  bcdDevice := 0

/-- From the serial device to the answer to the first descriptor request. `root` is
`main`'s local variable, of which nothing but the alternate setting has been set. -/
def openDevice (options : Options) (root : QdaIf) : Host.Code QdaIf := do
  let root := { root with altsetting := UInt8.ofInt options.matchIfaceAltIndex }
  let ret ← perform (.serialIoOpen options.serialDevicePath (toInt options.transferSpeed.toNat))
  if ret < 0 then Host.exit exIoerr
  else if (← qdaDfuDetach qdaConf) < 0 then Host.exit exIoerr
  else match ← qdaGetDfuDesc qdaConf root with
    | Option.none => Host.exit exIoerr
    | some root => return root

/-- One round of `status_again`; it is left with the status that was not dealt with. -/
def statusRound (_ : Unit) : Host.Code (Unit ⊕ DfuStatus) := do
  match ← dfuGetStatus qdaConf with
  | Option.none => Host.exit exIoerr
  | some status =>
    milliSleep status.bwPollTimeout
    if status.bState = stateAppIdle ∨ status.bState = stateAppDetach then Host.exit exIoerr
    else if status.bState = stateDfuError then
      if (← dfuClearStatus qdaConf) < 0 then Host.exit exIoerr else return .inl ()
    else if status.bState = stateDfuDnloadIdle ∨ status.bState = stateDfuUploadIdle then
      if (← dfuAbort qdaConf) < 0 then Host.exit exIoerr else return .inl ()
    else return .inr status

/-- The second chance of a device that is not in an error state but reports an error. -/
def retryStatus (status : DfuStatus) : Host.Code Unit := do
  if status.bStatus ≠ dfuStatusOk then
    if (← dfuClearStatus qdaConf) < 0 then Host.exit exIoerr
    else match ← dfuGetStatus qdaConf with
      | Option.none => Host.exit exIoerr
      | some status =>
        if status.bStatus ≠ dfuStatusOk then Host.exit exSoftware else milliSleep status.bwPollTimeout
  else return ()

def settleStatus : Host.Code Unit := do
  let status ← Static.loop statusRound ()
  retryStatus status

/-- The transfer size before the device's own packet size is looked at; `pageSize` is
that of a build whose transfers are limited to a page. -/
def requestedSize (pageSize : Option Int) (transferSize : UInt32) (wTransferSize : UInt16) : Option UInt32 :=
  let size := if transferSize = 0 then wTransferSize.toUInt32 else transferSize
  if size = 0 then Option.none
  else match pageSize with
    | Option.none => some size
    | some page => some (if toInt size.toNat > page then UInt32.ofInt page else size)

def adjustedSize (size : UInt32) (bMaxPacketSize0 : UInt8) : UInt32 :=
  if size < bMaxPacketSize0.toUInt32 then bMaxPacketSize0.toUInt32 else size

/-- What `main` knows when it comes to the transfer. -/
structure Session where
  options : Options
  file : DfuFile
  root : QdaIf
  runtimeVendor : UInt16
  runtimeProduct : UInt16
  transferSize : UInt32

/-- Devices that speak the DfuSe protocol are not supported. -/
def Session.dfuseDevice (session : Session) : Bool := session.root.bcdDFUVersion = 0x11a

def prepareDevice (pageSize : Option Int) (options : Options) (file : DfuFile) (root : QdaIf) : Host.Code Session := do
  let root ← openDevice options root
  if (← qdaSetAltSetting qdaConf root.altsetting) < 0 then Host.exit exIoerr
  else
    settleStatus
    match requestedSize pageSize options.transferSize root.wTransferSize with
    | Option.none => Host.exit exIoerr
    | some size => return {
        options, file, root
        runtimeVendor := root.vendor
        runtimeProduct := root.product
        transferSize := adjustedSize size root.bMaxPacketSize0 }

/-- Everything before the switch over the mode. -/
def prepare (pageSize : Option Int) (root : QdaIf) (argv : List Opt) : Host.Code Session := do
  match readOptions argv with
  | Option.none => Host.exit exUsage
  | some options =>
    if options.mode = .version then Host.exit 0
    else if options.mode = .none then Host.exit exUsage
    else
      let file := DfuFile.zero options.fileName
      if options.mode = .download then
        let file ← dfuLoadFile options.verbose file .maybe .maybe
        prepareDevice pageSize options file root
      else prepareDevice pageSize options file root

/-- The file names another device than this one, under both of the IDs it may have. -/
def Session.mismatch (session : Session) : Bool :=
  ((session.file.idVendor ≠ 0xffff ∧ session.file.idVendor ≠ session.runtimeVendor) ∨
    (session.file.idProduct ≠ 0xffff ∧ session.file.idProduct ≠ session.runtimeProduct)) ∧
  ((session.file.idVendor ≠ 0xffff ∧ session.file.idVendor ≠ session.root.vendor) ∨
    (session.file.idProduct ≠ 0xffff ∧ session.file.idProduct ≠ session.root.product))

/-- What is done with the firmware of a session. -/
inductive Decision where
  | mismatch | unsupported
  | dnload (xferSize : Int)
  deriving DecidableEq

def Session.xferSize (session : Session) : Int := toInt session.transferSize.toNat

def Session.decision (session : Session) : Decision :=
  if session.mismatch then .mismatch
  else if session.dfuseDevice ∨ session.file.bcdDFU = 0x11a then .unsupported
  else .dnload session.xferSize

def transferUpload (session : Session) : Host.Code Unit := do
  let fd ← perform (.openNew session.file.name)
  if fd < 0 then Host.exit exIoerr
  else if session.dfuseDevice then Host.exit 1
  else if (← dfuloadDoUpload session.xferSize 0 fd) < 0 then Host.exit 1
  else perform (.close fd)

def transferDownload (session : Session) : Host.Code Unit := do
  match session.decision with
  | .mismatch => Host.exit exIoerr
  | .unsupported => Host.exit 1
  | .dnload xferSize => if (← dfuloadDoDnload xferSize session.file) < 0 then Host.exit 1 else return ()

def transfer (session : Session) : Host.Code Unit :=
  match session.options.mode with
  | .upload => transferUpload session
  | .download => transferDownload session
  | .detach => do
    let _ ← qdaDfuDetach qdaConf
  | _ => Host.exit exIoerr

def finish (session : Session) : Host.Code Int := do
  if session.options.finalReset then
    let ret ← qdaReset qdaConf
    if ret < 0 ∧ ret ≠ -5 then Host.exit exIoerr
    else
      perform .serialIoClose
      return 0
  else
    perform .serialIoClose
    return 0

def main (pageSize : Option Int) (root : QdaIf) (argv : List Opt) : Host.Code Int := do
  let session ← prepare pageSize root argv
  transfer session
  finish session

end DfuUtilQda.Dfu

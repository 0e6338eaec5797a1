import DfuUtilQda.Interaction.Static
import DfuUtilQda.Qda.Packets

/-! The QDA requests, over whatever callbacks `qda_conf` holds. Each writes its
packet into `qda_buf`, hands it over, and reads the response where the request stood. -/

namespace DfuUtilQda.Qda
open Machine

/-- Surroundings in which an access outside a buffer has no defined continuation. -/
class Faults (m : Type → Type 1) where
  fault {α : Type} : m α

/-- `qda_conf_t`. The receive callback fills the buffer it is given and says how many bytes it received. -/
structure QdaConf (m : Type → Type 1) where
  send (data : List UInt8) : m Int
  receive (qdaBuf : QdaBuf) : m (Nat × QdaBuf)
  detach : m Int

/-- The fields of `qda_if_t` that the program reads. -/
structure QdaIf where
  wTransferSize : UInt16
  bcdDFUVersion : UInt16
  vendor : UInt16
  product : UInt16
  bcdDevice : UInt16
  altsetting : UInt8
  bMaxPacketSize0 : UInt8
  deriving DecidableEq

structure DfuStatus where
  bStatus : UInt8
  bwPollTimeout : UInt32
  bState : UInt8
  deriving DecidableEq

variable {m : Type → Type 1} [Monad m] [Faults m] (conf : QdaConf m)

abbrev Code (m : Type → Type 1) := StateT QdaBuf m

def fault {α : Type} : Code m α := StateT.lift Faults.fault

/-- Sends the first `length` bytes of `qda_buf` and waits for a response of type
`expected`. Whether anything was received at all, only `qda_reset` looks at. -/
def exchange (length : Nat) (expected : UInt32) : Code m Bool := do
  let qdaBuf ← get
  let rc ← conf.send (qdaBuf.bytes.take length)
  if rc < 0 then return false
  else
    let (_, qdaBuf) ← conf.receive qdaBuf
    set qdaBuf
    return qdaBuf.type = expected

def qdaReset : Code m Int := do
  modify (fun qdaBuf => qdaBuf.store32 0 qdaPktReset)
  let qdaBuf ← get
  let rc ← conf.send (qdaBuf.bytes.take 4)
  if rc < 0 then return -1
  else
    let (received, qdaBuf) ← conf.receive qdaBuf
    set qdaBuf
    if toInt received ≥ qdaBufSize then return -1
    else if qdaBuf.type ≠ qdaPktAck then return -1
    else return 0

/-- A request that carries nothing but its type and is answered by an ACK. -/
def simpleRequest (type : UInt32) : Code m Int := do
  modify (fun qdaBuf => qdaBuf.store32 0 type)
  if ← exchange conf 4 qdaPktAck then return 0 else return -1

def qdaGetDevDesc (dif : QdaIf) : Code m (Option QdaIf) := do
  modify (fun qdaBuf => qdaBuf.store32 0 qdaPktDevDescReq)
  if ← exchange conf 4 qdaPktDevDescResp then
    let qdaBuf ← get
    return some { dif with product := qdaBuf.u16 6, vendor := qdaBuf.u16 4, bcdDevice := qdaBuf.u16 8 }
  else return none

def qdaGetDfuDesc (dif : QdaIf) : Code m (Option QdaIf) := do
  modify (fun qdaBuf => qdaBuf.store32 0 qdaPktDfuDescReq)
  if ← exchange conf 4 qdaPktDfuDescResp then
    let qdaBuf ← get
    return some { dif with wTransferSize := qdaBuf.u16 8, bcdDFUVersion := qdaBuf.u16 10 }
  else return none

def qdaSetAltSetting (alt : UInt8) : Code m Int := do
  modify (fun qdaBuf => (qdaBuf.store32 0 qdaPktDfuSetAltSetting).store 4 [alt])
  if ← exchange conf 5 qdaPktAck then return 0 else return -1

def qdaDfuDetach : Code m Int := do
  if (← conf.detach) < 0 then return -1 else return 0

def qdaDfuDownload (len transaction : UInt16) (data : Pointer) : Code m Int := do
  modify (fun qdaBuf => ((qdaBuf.store32 0 qdaPktDfuDnloadReq).store16 4 len).store16 6 transaction)
  if len.toNat > qdaBufSize - 4 - 4 then return -1
  else match data.load len.toNat with
    | none => fault
    | some bytes =>
      modify (fun qdaBuf => qdaBuf.store 8 bytes)
      let qdaBuf ← get
      if ← exchange conf (4 + 4 + (qdaBuf.u16 4).toNat) qdaPktAck then return 0 else return -1

/-- `data` is the caller's buffer, which comes back with the uploaded bytes copied to its beginning. -/
def qdaDfuUpload (len transaction : UInt16) (data : List UInt8) : Code m (Int × List UInt8) := do
  modify (fun qdaBuf => ((qdaBuf.store32 0 qdaPktDfuUploadReq).store16 4 len).store16 6 transaction)
  if ← exchange conf 8 qdaPktDfuUploadResp then
    let qdaBuf ← get
    let retv := (qdaBuf.u16 4).toNat
    if retv > len.toNat then return (-1, data)
    else match (qdaBuf.pointer 6).load retv with
      | none => fault
      | some bytes => match memcpy data 0 bytes with
        | none => fault
        | some data => return (retv, data)
  else return (-1, data)

def qdaDfuGetstatus : Code m (Option DfuStatus) := do
  modify (fun qdaBuf => qdaBuf.store32 0 qdaPktDfuGetstatusReq)
  if ← exchange conf 4 qdaPktDfuGetstatusResp then
    let qdaBuf ← get
    return some { bState := qdaBuf.u8 9, bStatus := qdaBuf.u8 8, bwPollTimeout := qdaBuf.u32 4 }
  else return none

def qdaDfuClrstatus : Code m Int := simpleRequest conf qdaPktDfuClrstatus

def qdaDfuGetstate : Code m Int := do
  modify (fun qdaBuf => qdaBuf.store32 0 qdaPktDfuGetstateReq)
  if ← exchange conf 4 qdaPktDfuGetstateResp then
    let qdaBuf ← get
    return (qdaBuf.u8 4).toNat
  else return -1

def qdaDfuAbort : Code m Int := simpleRequest conf qdaPktDfuAbort

/-! The DFU calls as the shim maps them onto QDA. The last one is as it stands
there: clearing the status asks for the state. -/

def dfuDownload (len transaction : UInt16) (data : Pointer) : Code m Int := qdaDfuDownload conf len transaction data
def dfuUpload (len transaction : UInt16) (data : List UInt8) : Code m (Int × List UInt8) :=
  qdaDfuUpload conf len transaction data
def dfuGetStatus : Code m (Option DfuStatus) := qdaDfuGetstatus conf
def dfuAbort : Code m Int := qdaDfuAbort conf
def dfuClearStatus : Code m Int := qdaDfuGetstate conf

end DfuUtilQda.Qda

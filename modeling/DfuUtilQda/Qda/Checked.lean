import DfuUtilQda.Qda.Requests

/-! The QDA requests once more, with a check before every access to `qda_buf`: the
bytes read or written lie within it, or else the access is a fault. -/

namespace DfuUtilQda.Qda.Checked
open Machine

variable {m : Type → Type 1} [Monad m] [Faults m] (conf : QdaConf m)

/-- The `count` bytes at `offset` are in the buffer. -/
def within (offset count : Nat) : Code m Unit := if offset + count ≤ qdaBufSize then return () else fault

def exchange (length : Nat) (expected : UInt32) : Code m Bool := do
  within 0 length
  let qdaBuf ← get
  let rc ← conf.send (qdaBuf.bytes.take length)
  if rc < 0 then return false
  else
    let (_, qdaBuf) ← conf.receive qdaBuf
    set qdaBuf
    within 0 4
    return qdaBuf.type = expected

def qdaReset : Code m Int := do
  within 0 4
  modify (fun qdaBuf => qdaBuf.store32 0 qdaPktReset)
  within 0 4
  let qdaBuf ← get
  let rc ← conf.send (qdaBuf.bytes.take 4)
  if rc < 0 then return -1
  else
    let (received, qdaBuf) ← conf.receive qdaBuf
    set qdaBuf
    if toInt received ≥ qdaBufSize then return -1
    else
      within 0 4
      if qdaBuf.type ≠ qdaPktAck then return -1
      else return 0

def simpleRequest (type : UInt32) : Code m Int := do
  within 0 4
  modify (fun qdaBuf => qdaBuf.store32 0 type)
  if ← exchange conf 4 qdaPktAck then return 0 else return -1

def qdaGetDevDesc (dif : QdaIf) : Code m (Option QdaIf) := do
  within 0 4
  modify (fun qdaBuf => qdaBuf.store32 0 qdaPktDevDescReq)
  if ← exchange conf 4 qdaPktDevDescResp then
    within 6 2
    within 4 2
    within 8 2
    let qdaBuf ← get
    return some { dif with product := qdaBuf.u16 6, vendor := qdaBuf.u16 4, bcdDevice := qdaBuf.u16 8 }
  else return none

def qdaGetDfuDesc (dif : QdaIf) : Code m (Option QdaIf) := do
  within 0 4
  modify (fun qdaBuf => qdaBuf.store32 0 qdaPktDfuDescReq)
  if ← exchange conf 4 qdaPktDfuDescResp then
    within 8 2
    within 10 2
    let qdaBuf ← get
    return some { dif with wTransferSize := qdaBuf.u16 8, bcdDFUVersion := qdaBuf.u16 10 }
  else return none

def qdaSetAltSetting (alt : UInt8) : Code m Int := do
  within 0 4
  within 4 1
  modify (fun qdaBuf => (qdaBuf.store32 0 qdaPktDfuSetAltSetting).store 4 [alt])
  if ← exchange conf 5 qdaPktAck then return 0 else return -1

def qdaDfuDownload (len transaction : UInt16) (data : Pointer) : Code m Int := do
  within 0 4
  within 4 2
  within 6 2
  modify (fun qdaBuf => ((qdaBuf.store32 0 qdaPktDfuDnloadReq).store16 4 len).store16 6 transaction)
  if len.toNat > qdaBufSize - 4 - 4 then return -1
  else match data.load len.toNat with
    | none => fault
    | some bytes =>
      within 8 len.toNat
      modify (fun qdaBuf => qdaBuf.store 8 bytes)
      within 4 2
      let qdaBuf ← get
      if ← exchange conf (4 + 4 + (qdaBuf.u16 4).toNat) qdaPktAck then return 0 else return -1

def qdaDfuUpload (len transaction : UInt16) (data : List UInt8) : Code m (Int × List UInt8) := do
  within 0 4
  within 4 2
  within 6 2
  modify (fun qdaBuf => ((qdaBuf.store32 0 qdaPktDfuUploadReq).store16 4 len).store16 6 transaction)
  if ← exchange conf 8 qdaPktDfuUploadResp then
    within 4 2
    let qdaBuf ← get
    let retv := (qdaBuf.u16 4).toNat
    if retv > len.toNat then return (-1, data)
    else
      within 6 retv
      match memcpy data 0 ((qdaBuf.bytes.drop 6).take retv) with
      | none => fault
      | some data => return (retv, data)
  else return (-1, data)

def qdaDfuGetstatus : Code m (Option DfuStatus) := do
  within 0 4
  modify (fun qdaBuf => qdaBuf.store32 0 qdaPktDfuGetstatusReq)
  if ← exchange conf 4 qdaPktDfuGetstatusResp then
    within 9 1
    within 8 1
    within 4 4
    let qdaBuf ← get
    return some { bState := qdaBuf.u8 9, bStatus := qdaBuf.u8 8, bwPollTimeout := qdaBuf.u32 4 }
  else return none

def qdaDfuClrstatus : Code m Int := simpleRequest conf qdaPktDfuClrstatus

def qdaDfuGetstate : Code m Int := do
  within 0 4
  modify (fun qdaBuf => qdaBuf.store32 0 qdaPktDfuGetstateReq)
  if ← exchange conf 4 qdaPktDfuGetstateResp then
    within 4 1
    let qdaBuf ← get
    return (qdaBuf.u8 4).toNat
  else return -1

def qdaDfuAbort : Code m Int := simpleRequest conf qdaPktDfuAbort

end DfuUtilQda.Qda.Checked

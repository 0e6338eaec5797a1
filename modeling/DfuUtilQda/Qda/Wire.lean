import DfuUtilQda.Qda.Requests
import DfuUtilQda.Xmodem.Receiver
import DfuUtilQda.Xmodem.Sender

/-! The callbacks through which QDA talks XMODEM. A reception that failed is
reported as one of no bytes, whatever it has already written to the buffer. -/

namespace DfuUtilQda.Qda
open Machine Xmodem

instance : Faults Xmodem.Code := ⟨Xmodem.fault⟩

def dfuUtilQdaSend (data : List UInt8) : Xmodem.Code Int := xmodemTransmitPackage data

def dfuUtilQdaReceive (qdaBuf : QdaBuf) : Xmodem.Code (Nat × QdaBuf) := do
  let (ret, data) ← xmodemReceivePackage qdaBuf.bytes
  return (if ret = -1 then 0 else toSize ret, qdaBuf.store 0 data)

/-- What `main` installs; the detach callback is the serial driver's and moves no bytes. -/
def xmodemConf (serialDetach : Xmodem.Code Int) : QdaConf Xmodem.Code where
  send := dfuUtilQdaSend
  receive := dfuUtilQdaReceive
  detach := serialDetach

end DfuUtilQda.Qda

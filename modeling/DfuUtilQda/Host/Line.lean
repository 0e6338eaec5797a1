import DfuUtilQda.Dfu.Main
import DfuUtilQda.Interaction.Sum
import DfuUtilQda.Qda.Wire

/-! The program with its transport. The callbacks that `main` installs talk XMODEM
on the serial line; whatever else it does it asks of the host as before. -/

namespace DfuUtilQda.Host
open Interaction Qda Xmodem

/-- The serial line, and beside it the host's other calls. -/
abbrev Port : Signature := Io.sum Calls

def onLine {α : Type} (code : Xmodem.Code α) : Static XmodemPacket Port α := fun pktBuf => (code.run pktBuf).left

/-- Sending and receiving are the callbacks of `qda_conf`, every other call remains what it is. -/
def transport : Handler Calls XmodemPacket Port
  | .send data => onLine (dfuUtilQdaSend data)
  | .receive qdaBuf => onLine (dfuUtilQdaReceive qdaBuf)
  | op => Static.perform (S := Port) (.inr op)

end DfuUtilQda.Host

namespace DfuUtilQda.Dfu
open Interaction Qda Host Xmodem

/-- `main` down to the serial line. Both static buffers begin as they are given. -/
def mainOnLine (pageSize : Option Int) (root : QdaIf) (argv : List Opt) (qdaBuf : QdaBuf) :
    Static XmodemPacket Port (Int × QdaBuf) := ((main pageSize root argv).run qdaBuf).handle transport

end DfuUtilQda.Dfu

import DfuUtilQda.Interaction.Static
import DfuUtilQda.Qda.Requests

/-! What the program asks of the world: the QDA transport, the serial port, time,
memory and files. An answer may be anything its call can return, errors included. -/

namespace DfuUtilQda.Host
open Interaction Machine Qda

/-- A block of memory as `malloc` hands it out, with whatever bytes it happens to hold. -/
abbrev Block (size : Nat) := {bytes : List UInt8 // bytes.length = size}

/-- What a read may store in a buffer of the given size. -/
abbrev AtMost (size : Nat) := {bytes : List UInt8 // bytes.length ≤ size}

/-- The properties of a file prefix that are printed when one is found. -/
inductive PrefixReport where
  | lmdfu (address : UInt32) (payloadLength : Int)
  | lpcdfu (kiBytes : Int)
  deriving DecidableEq

inductive Op where
  | send (data : List UInt8)
  | receive (qdaBuf : QdaBuf)
  | serialDetach
  | serialIoOpen (path : Option String) (speed : Int)
  | serialIoClose
  | milliSleep (ms : UInt32)
  | malloc (size : Nat)
  | realloc (size : Nat)
  | openRead (name : String)
  | openNew (name : String)
  | openTruncated (name : String)
  | seekEnd (file : Int)
  | seekStart (file : Int)
  | read (file : Int) (size : Nat)
  | fread (size : Nat)
  | write (file : Int) (data : List UInt8)
  | close (file : Int)
  | report (found : PrefixReport)
  | exit (code : Nat)
  | fault

/-- `malloc` and `realloc` answer `none` for a null pointer, `read` for an error. -/
@[reducible] def Answer : Op → Type
  | .send _ => Int
  | .receive _ => Nat × QdaBuf
  | .serialDetach => Int
  | .serialIoOpen _ _ => Int
  | .malloc size => Option (Block size)
  | .realloc size => Option (Block size)
  | .openRead _ => Int
  | .openNew _ => Int
  | .openTruncated _ => Int
  | .seekEnd _ => Int
  | .seekStart _ => Int
  | .read _ size => Option (AtMost size)
  | .fread size => AtMost size
  | .write _ _ => Int
  | _ => Unit

abbrev Calls : Signature := ⟨Op, Answer⟩

/-- Host code. `qda_buf` is its one static variable. -/
abbrev Code := Static QdaBuf Calls

def perform (op : Op) : Code (Answer op) := Static.perform (S := Calls) op

instance : Faults (Program Calls) := ⟨.call (S := Calls) .fault fun _ => .halt⟩

def qdaConf : QdaConf (Program Calls) where
  send data := Program.perform (S := Calls) (.send data)
  receive qdaBuf := Program.perform (S := Calls) (.receive qdaBuf)
  detach := Program.perform (S := Calls) .serialDetach

def exUsage : Nat := 64
def exSoftware : Nat := 70
def exIoerr : Nat := 74

/-- `exit`, and what `err` and `errx` do once they have printed their message. -/
def exit {α : Type} (code : Nat) : Code α := do
  perform (.exit code)
  Static.halt

/-- `milli_sleep` does nothing for zero milliseconds. -/
def milliSleep (ms : UInt32) : Code Unit := if ms ≠ 0 then perform (.milliSleep ms) else return ()

end DfuUtilQda.Host

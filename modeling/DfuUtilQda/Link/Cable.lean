import Mathlib.Logic.Relation
import DfuUtilQda.Proofs.PacketReads

/-! A transmitter and a receiver joined by two lines. A line is a queue that may
lose or damage what it carries. The two ends take their steps in any order, and
a read may time out at any moment, even with bytes on the way. -/

namespace DfuUtilQda.Xmodem
open Interaction

/-- One direction: the bytes put in, those that came through so far, and those read. -/
structure Line where
  sent : List UInt8
  carried : List UInt8
  taken : List UInt8

def Line.empty : Line := ⟨[], [], []⟩

/-- What is lost or damaged as a whole: a frame, or a control byte. -/
def IsUnit (unit : List UInt8) : Prop := (∃ frame : Frame, unit = frame.bytes) ∨ ∃ ch ≠ soh, unit = [ch]

inductive Befalls : List UInt8 → List UInt8 → Prop where
  | kept {unit : List UInt8} (whole : IsUnit unit) : Befalls unit unit
  | dropped {unit : List UInt8} (whole : IsUnit unit) : Befalls unit []
  | damaged (frame other : Frame) (broken : other.intact = false) : Befalls frame.bytes other.bytes

/-- What has come through of the bytes sent: something for each unit, and the bytes
of the unit under way as they are sent. -/
def CarriesUnits (sent carried : List UInt8) : Prop :=
  ∃ done : List (List UInt8 × List UInt8), (∀ pair ∈ done, Befalls pair.1 pair.2) ∧
    ∃ unit fate count, Befalls unit fate ∧
      sent = done.flatMap Prod.fst ++ unit.take count ∧ carried = done.flatMap Prod.snd ++ fate.take count

/-- Of the receiver's control bytes some are lost. -/
def CarriesBytes (sent carried : List UInt8) : Prop := carried.Sublist sent

/-- What an end does and is told, sending on `out` and reading from `into`. -/
inductive Acts (law : List UInt8 → List UInt8 → Prop) : History Io → Line → Line → Line → Line → Prop where
  | nil {out into : Line} : Acts law [] out into out into
  | puts {history : History Io} {out into out' into' : Line} (ch : UInt8) (through : List UInt8) (atMost : through.length ≤ 1)
      (lawful : law (out.sent ++ [ch]) (out.carried ++ through))
      (later : Acts law history ⟨out.sent ++ [ch], out.carried ++ through, out.taken⟩ into out' into') :
      Acts law (⟨.putc ch, ()⟩ :: history) out into out' into'
  | reads {history : History Io} {out into out' into' : Line} (ch : UInt8) (waiting : into.taken ++ [ch] <+: into.carried)
      (later : Acts law history out ⟨into.sent, into.carried, into.taken ++ [ch]⟩ out' into') :
      Acts law (⟨.getc, some ch⟩ :: history) out into out' into'
  | timesOut {history : History Io} {out into out' into' : Line} (later : Acts law history out into out' into') :
      Acts law (⟨.getc, none⟩ :: history) out into out' into'
  | sets {history : History Io} {out into out' into' : Line} (ms : Nat) (later : Acts law history out into out' into') :
      Acts law (⟨.setTimeout ms, ()⟩ :: history) out into out' into'

structure Cable (α β : Type) where
  transmitter : Program Io α
  receiver : Program Io β
  forth : Line
  back : Line

variable {α β : Type}

namespace Cable

def start (transmitter : Program Io α) (receiver : Program Io β) : Cable α β := ⟨transmitter, receiver, .empty, .empty⟩

/-- Either end does some of what it does next, while the other waits. -/
inductive Step : Cable α β → Cable α β → Prop where
  | transmitter {now : Cable α β} {history : History Io} {next : Program Io α} {forth back : Line}
      (run : Runs now.transmitter history next) (acts : Acts CarriesUnits history now.forth now.back forth back) :
      Step now ⟨next, now.receiver, forth, back⟩
  | receiver {now : Cable α β} {history : History Io} {next : Program Io β} {forth back : Line}
      (run : Runs now.receiver history next) (acts : Acts CarriesBytes history now.back now.forth back forth) :
      Step now ⟨now.transmitter, next, forth, back⟩

def Reaches : Cable α β → Cable α β → Prop := Relation.ReflTransGen Step

end Cable

end DfuUtilQda.Xmodem

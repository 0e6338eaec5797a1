import DfuUtilQda.Device.Messages
import DfuUtilQda.Dfu.Load
import DfuUtilQda.Interaction.Environment
import DfuUtilQda.Proofs.Loading

/-! A device to install firmware on, as an abstract state machine: what the program
is for can be said of it. It takes the blocks of an image in their order only, is busy
as long as it likes, and stalls whatever does not come in its turn. -/

namespace DfuUtilQda.Device
open Interaction Machine Qda Host Dfu

def stateDfuDnbusy : UInt8 := 4
def dfuStatusErrStalledPkt : UInt8 := 0x0f

/-- What the device is doing. An image that is being received is not the installed one yet. -/
inductive Stage where
  | idle
  | busy (image : List UInt8) (blocks polls : Nat)
  | dnloadIdle (image : List UInt8) (blocks : Nat)
  | manifest (image : List UInt8) (polls : Nat)
  | uploadIdle (offset blocks : Nat)
  | error
  deriving DecidableEq

def Stage.bState : Stage → UInt8
  | .idle => stateDfuIdle
  | .busy _ _ _ => stateDfuDnbusy
  | .dnloadIdle _ _ => stateDfuDnloadIdle
  | .manifest _ _ => stateDfuManifest
  | .uploadIdle _ _ => stateDfuUploadIdle
  | .error => stateDfuError

def Stage.bStatus : Stage → UInt8
  | .error => dfuStatusErrStalledPkt
  | _ => dfuStatusOk

/-- The device can be brought to its idle state. -/
def Stage.Abortable : Stage → Prop
  | .idle | .dnloadIdle _ _ | .uploadIdle _ _ => True
  | .busy _ _ _ | .manifest _ _ | .error => False

instance (stage : Stage) : Decidable stage.Abortable := by
  cases stage <;> unfold Stage.Abortable <;> infer_instance

structure Target where
  firmware : List UInt8
  stage : Stage
  deriving DecidableEq

/-- A kind of device: its descriptor, and how often its status can be asked for until a block is programmed
or an image is installed. -/
structure Traits where
  transferSize : UInt16
  bcdDfuVer : UInt16
  programming : Nat → Nat
  manifesting : Nat

/-- A step of the work that the device does between two requests for its status. -/
def Target.polled (target : Target) : Target :=
  match target.stage with
  | .busy image blocks (polls + 1) => { target with stage := .busy image blocks polls }
  | .busy image blocks 0 => { target with stage := .dnloadIdle image blocks }
  | .manifest image (polls + 1) => { target with stage := .manifest image polls }
  | .manifest image 0 => ⟨image, .idle⟩
  | _ => target

def Target.stalled (target : Target) : Target × Reply := ({ target with stage := .error }, .stall)

namespace Traits

variable (traits : Traits)

/-- A block behind those received; an empty one ends the image, unless there is none. -/
def dnload (target : Target) (image : List UInt8) (blocks : Nat) (block : UInt16) (data : List UInt8) : Target × Reply :=
  if block ≠ UInt16.ofNat blocks ∨ traits.transferSize.toNat < data.length then target.stalled
  else if data ≠ [] then ({ target with stage := .busy (image ++ data) (blocks + 1) (traits.programming blocks) }, .ack)
  else if image ≠ [] then ({ target with stage := .manifest image traits.manifesting }, .ack)
  else target.stalled

/-- The firmware from an offset on; less of it than was asked for is the end of it. -/
def upload (target : Target) (offset blocks : Nat) (len block : UInt16) : Target × Reply :=
  if block ≠ UInt16.ofNat blocks ∨ len = 0 ∨ traits.transferSize < len then target.stalled
  else
    let data := (target.firmware.drop offset).take len.toNat
    ({ target with stage := if data.length < len.toNat then .idle else .uploadIdle (offset + len.toNat) (blocks + 1) }, .upload data)

def serve (target : Target) (request : Request) : Target × Reply :=
  match request with
  | .dfuDesc => (target, .dfuDesc traits.transferSize traits.bcdDfuVer)
  | .reset => ({ target with stage := .idle }, .ack)
  | .setAltSetting _ => (target, .ack)
  | .getStatus => (target.polled, .status target.polled.stage.bStatus target.polled.stage.bState)
  | .getState => (target, .state target.stage.bState)
  | .clrStatus => if target.stage = .error then ({ target with stage := .idle }, .ack) else target.stalled
  | .abort => if target.stage.Abortable then ({ target with stage := .idle }, .ack) else target.stalled
  | .dnload block data =>
    match target.stage with
    | .idle => traits.dnload target [] 0 block data
    | .dnloadIdle image blocks => traits.dnload target image blocks block data
    | _ => target.stalled
  | .upload len block =>
    match target.stage with
    | .idle => traits.upload target 0 0 len block
    | .uploadIdle offset blocks => traits.upload target offset blocks len block
    | _ => target.stalled
  | .devDesc | .other => target.stalled

end Traits

/-- What surrounds the program: the device with its latest reply, the file that is read
and the one that is written, and the code the program has exited with. -/
structure World where
  target : Target
  reply : Reply
  input : List UInt8
  output : List UInt8
  code : Option Nat

def World.start (target : Target) (input : List UInt8) : World := ⟨target, .stall, input, [], none⟩

namespace World

variable (traits : Traits) (world : World)

def asked (request : Request) : World :=
  let served := traits.serve world.target request
  { world with target := served.1, reply := served.2 }

def next (event : Event Calls) : World :=
  match event with
  | ⟨.send data, _⟩ => world.asked traits (Request.decode data)
  | ⟨.write _ data, _⟩ => { world with output := world.output ++ data }
  | ⟨.exit code, _⟩ => { world with code := some code }
  | event => { world with input := unread world.input event }

/-- What is received begins with the reply, and is longer by less than a packet. -/
def Answers (answer : Nat × QdaBuf) : Prop := ∃ message : List UInt8, world.reply.Encodes message ∧
  message.take qdaBufSize <+: answer.2.bytes ∧ answer.1 < message.length + 128

/-- The device is connected, the transport delivers what it is given, and the calls of the host succeed. -/
def Allows : Event Calls → Prop
  | ⟨.send _, rc⟩ => (0 : Int) ≤ rc
  | ⟨.receive _, answer⟩ => world.Answers answer
  | ⟨.serialDetach, rc⟩ => (0 : Int) ≤ rc
  | ⟨.serialIoOpen _ _, rc⟩ => (0 : Int) ≤ rc
  | ⟨.openNew _, file⟩ => (0 : Int) ≤ file
  | ⟨.write _ data, written⟩ => written = (data.length : Int)
  | event => Supplied world.input event

end World

/-- A device of this kind on a host without faults. -/
def attached (traits : Traits) : Environment Calls World := ⟨World.Allows, World.next traits⟩

end DfuUtilQda.Device

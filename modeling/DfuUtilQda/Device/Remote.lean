import DfuUtilQda.Device.Target

/-! The device behind a transport that nothing can be expected of. Any message can be
lost, whatever the program is told of it, and any reply can be lost or garbled. Only
a message that has not arrived is never acknowledged. -/

namespace DfuUtilQda.Device
open Interaction Qda Host Dfu

/-- The world, the number of messages that were handed over, and whether the latest of them has arrived. -/
structure Remote where
  world : World
  handed : Nat
  heard : Bool

def Remote.start (target : Target) (input : List UInt8) : Remote := ⟨World.start target input, 0, false⟩

namespace Remote

variable (traits : Traits) (arrives : Nat → Bool) (remote : Remote)

def given (request : Request) : Remote where
  world := if arrives remote.handed then remote.world.asked traits request else remote.world
  handed := remote.handed + 1
  heard := arrives remote.handed

def next (event : Event Calls) : Remote :=
  match event with
  | ⟨.send data, _⟩ => remote.given traits arrives (Request.decode data)
  | event => { remote with world := remote.world.next traits event }

/-- The port may fail at any time, and so may what is written. The file is read as it is. -/
def Allows : Event Calls → Prop
  | ⟨.receive _, answer⟩ => answer.2.type = qdaPktAck → remote.heard = true
  | ⟨.send _, _⟩ | ⟨.serialDetach, _⟩ | ⟨.serialIoOpen _ _, _⟩ | ⟨.openNew _, _⟩ | ⟨.write _ _, _⟩ => True
  | event => Supplied remote.world.input event

end Remote

/-- A device of this kind, with the messages that arrive there. -/
def outOfReach (traits : Traits) (arrives : Nat → Bool) : Environment Calls Remote := ⟨Remote.Allows, Remote.next traits arrives⟩

end DfuUtilQda.Device

import DfuUtilQda.Device.Target
import DfuUtilQda.Host.Line
import DfuUtilQda.Link.LockStep
import DfuUtilQda.Proofs.Transmission
import DfuUtilQda.Proofs.WireRequests

/-! The program and the device at the two ends of a line that loses and damages what it
carries. The device runs the same transport: it receives a request, serves it, and
transmits the reply when the program comes to receive it. -/

namespace DfuUtilQda.Xmodem
open Interaction

variable {α β : Type}

/-- Round after round, each with its fate, and what either end has done in them. -/
inductive InStep : List Fate → History Io → History Io → Ends α β → Ends α β → Prop where
  | nil (ends : Ends α β) : InStep [] [] [] ends ends
  | cons {fate : Fate} {fates : List Fate} {transmitter waiting resumed : Program Io α} {receiver replied : Program Io β}
      {sent heard early late : History Io} {reply : UInt8} {ends : Ends α β}
      (sends : Runs transmitter sent waiting) (blind : outcomes sent = [])
      (receives : Runs receiver (heard ++ puts [reply]) replied) (silent : emitted heard = [])
      (arrival : outcomes heard = fate.arrives (emitted sent))
      (answered : Runs waiting [hears (fate.returns reply)] resumed)
      (more : InStep fates early late ⟨resumed, replied⟩ ends) :
      InStep (fate :: fates) (sent ++ [hears (fate.returns reply)] ++ early) (heard ++ puts [reply] ++ late) ⟨transmitter, receiver⟩ ends

end DfuUtilQda.Xmodem

namespace DfuUtilQda.Device
open Interaction Machine Qda Host Dfu Xmodem

/-- The two ends between two transfers: the surroundings of the program, the packet buffers of
both ends, and how many messages have been transferred. -/
structure Site where
  world : World
  pktBuf : XmodemPacket
  peer : XmodemPacket
  transfers : Nat

/-- A session begins with whatever the packet buffers hold. -/
def Site.start (target : Target) (contents : List UInt8) (pktBuf peer : XmodemPacket) : Site :=
  ⟨World.start target contents, pktBuf, peer, 0⟩

/-- The faults of each transfer, by its number and the number of its blocks. -/
abbrev Schedule := Nat → Nat → Faults

/-- Calls of the program, and how they have been carried out on the line and beside it. -/
inductive Joined (traits : Traits) (schedule : Schedule) (start : Site) : History Calls → History Port → Site → Prop where
  | begins : Joined traits schedule start [] [] start
  | request {high : History Calls} {low : History Port} {site : Site} {data buf got : List UInt8} {part heard : History Io}
      {rc count : Int} {kept stored : XmodemPacket} (joined : Joined traits schedule start high low site) (room : buf.length = qdaBufSize)
      (transfer : InStep (schedule site.transfers (blockCount data)).fates part heard
        ⟨(xmodemTransmitPackage data).run site.pktBuf, (xmodemReceivePackage buf).run site.peer⟩
        ⟨.ret (rc, kept), .ret ((count, got), stored)⟩) :
      Joined traits schedule start (high ++ [⟨.send data, rc⟩]) (low ++ part.map Event.left)
        ⟨site.world.asked traits (Request.decode (got.take (receivedBytes count))), kept, stored, site.transfers + 1⟩
  | reply {high : History Calls} {low : History Port} {site : Site} {asked : QdaBuf} {message got : List UInt8} {part heard : History Io}
      {rc count : Int} {kept stored : XmodemPacket} (joined : Joined traits schedule start high low site)
      (encodes : site.world.reply.Encodes message)
      (transfer : InStep (schedule site.transfers (blockCount message)).fates part heard
        ⟨(xmodemTransmitPackage message).run site.peer, (xmodemReceivePackage asked.bytes).run site.pktBuf⟩
        ⟨.ret (rc, stored), .ret ((count, got), kept)⟩) :
      Joined traits schedule start (high ++ [⟨.receive asked, (receivedBytes count, asked.store 0 got)⟩]) (low ++ heard.map Event.left)
        ⟨site.world, kept, stored, site.transfers + 1⟩
  | aside {high : History Calls} {low : History Port} {site : Site} {event : Event Calls}
      (joined : Joined traits schedule start high low site) (aside : Aside event.op) (allowed : site.world.Allows event) :
      Joined traits schedule start (high ++ [event]) (low ++ [event.right])
        ⟨site.world.next traits event, site.pktBuf, site.peer, site.transfers⟩

end DfuUtilQda.Device

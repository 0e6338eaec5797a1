import DfuUtilQda.Proofs.PacketReads

/-! A lock-step link between a transmitter and a receiver. In each round the
transmitter sends one unit, the receiver gets to hear what becomes of it and
replies with one byte, and the transmitter gets to hear what becomes of that. -/

namespace DfuUtilQda.Xmodem
open Interaction

/-- What happens to the unit and to the reply of one round. -/
structure Fate where
  arrives : List UInt8 → List (Option UInt8)
  returns : UInt8 → Option UInt8

namespace Fate

def delivered : Fate := ⟨List.map some, some⟩

/-- The unit arrives and its reply is lost. -/
def unanswered : Fate := ⟨List.map some, fun _ => none⟩

/-- The receiver hears something else instead of the unit. -/
def spoiled (heard : List (Option UInt8)) (lost : Bool) : Fate :=
  ⟨fun _ => heard, fun reply => if lost then none else some reply⟩

/-- What is heard of a lost or damaged unit: `xmodem_read_pkt` reports an error. -/
def Garbled (heard : List (Option UInt8)) : Prop := ∀ expSeqNo len, ReadsPkt expSeqNo len heard .err []

def Spoils (fate : Fate) : Prop := ∃ heard lost, Garbled heard ∧ fate = spoiled heard lost

def Fails (fate : Fate) : Prop := fate = unanswered ∨ fate.Spoils

/-- The start handshake: so many times the 'C' is lost and both ends time out. -/
def starts : Nat → List Fate
  | 0 => [spoiled [] false]
  | lost + 1 => spoiled [] true :: (List.replicate lost (spoiled [none] true) ++ [spoiled [none] false])

end Fate

/-- The faults of one transfer: how often the 'C' is lost, and the failed rounds of
each block and of the EOT, every one of which is tried again. -/
structure Faults where
  lost : Nat
  blocks : List (List Fate)
  eots : List Fate

namespace Faults
open Fate

def fates (faults : Faults) : List Fate :=
  starts faults.lost ++ (faults.blocks.flatMap (· ++ [delivered]) ++ (faults.eots ++ [delivered]))

/-- Few enough failures for the transmitter's retry budgets, over `count` blocks. The
reply to an EOT that arrived is not lost. -/
structure Bounded (faults : Faults) (count : Nat) : Prop where
  starts : faults.lost < maxRetransmit
  count : faults.blocks.length = count
  blocks : ∀ failed ∈ faults.blocks, failed.length < maxRetransmit ∧ ∀ fate ∈ failed, Fails fate
  eots : faults.eots.length < maxRetransmit ∧ ∀ fate ∈ faults.eots, Spoils fate

end Faults

/-- What is left to do at either end. -/
structure Ends (α β : Type) where
  transmitter : Program Io α
  receiver : Program Io β

variable {α β : Type}

inductive Round (fate : Fate) : Ends α β → Ends α β → Prop where
  | intro {transmitter waiting resumed : Program Io α} {receiver replied : Program Io β} {sent heard : History Io} {reply : UInt8}
      (sends : Runs transmitter sent waiting) (blind : outcomes sent = [])
      (receives : Runs receiver (heard ++ puts [reply]) replied) (silent : emitted heard = [])
      (arrival : outcomes heard = fate.arrives (emitted sent))
      (answered : Runs waiting [hears (fate.returns reply)] resumed) :
      Round fate ⟨transmitter, receiver⟩ ⟨resumed, replied⟩

/-- Round after round, each with its fate. -/
inductive Rounds : List Fate → Ends α β → Ends α β → Prop where
  | nil (ends : Ends α β) : Rounds [] ends ends
  | cons {fate : Fate} {fates : List Fate} {start middle ends : Ends α β}
      (round : Round fate start middle) (more : Rounds fates middle ends) : Rounds (fate :: fates) start ends

end DfuUtilQda.Xmodem

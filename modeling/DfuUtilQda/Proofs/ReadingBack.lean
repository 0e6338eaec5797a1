import DfuUtilQda.Proofs.Installing

/-! What the program is for, when it uploads: the file it writes is the firmware of the
attached device, which remains as it is. -/

namespace DfuUtilQda.Device
open Interaction Machine Qda Host Dfu

variable {traits : Traits} {world : World} {halted : World → Prop} {held : QdaBuf} {firmware : List UInt8} {blocks : Nat}
  {xferSize fd : Int}

/-- The stage of a device from which the first blocks have been read. -/
def delivered (xferSize : Int) (blocks : Nat) : Stage := if blocks = 0 then .idle else .uploadIdle (blocks * xferSize.toNat) blocks

section Loop

variable (range : 1 ≤ xferSize ∧ xferSize ≤ 65535)
include range

/-- What holds before a block is asked for. -/
structure Reading (firmware : List UInt8) (xferSize : Int) (blocks : Nat) (s : Upload) (now : World) : Prop where
  inside : blocks * xferSize.toNat ≤ firmware.length
  totalBytes : s.totalBytes = (blocks * xferSize.toNat : Nat)
  transaction : s.transaction = UInt16.ofNat blocks
  buf : (s.buf.length : Int) = xferSize
  target : now.target = ⟨firmware, delivered xferSize blocks⟩
  output : now.output = firmware.take (blocks * xferSize.toNat)

end Loop

end DfuUtilQda.Device

import DfuUtilQda.Proofs.FileParse
import DfuUtilQda.Proofs.Operations
import DfuUtilQda.Proofs.RequestStream
import DfuUtilQda.Proofs.TargetCalls

/-! What the program is for, when it downloads: on an attached device the firmware of
the file is installed, or the device keeps the firmware it has. -/

namespace DfuUtilQda.Device
open Interaction Machine Qda Host Dfu

variable {traits : Traits} {world after : World} {halted : World → Prop} {held : QdaBuf} {α : Type}

section Settling

theorem polled_abortable {target : Target} (abortable : target.stage.Abortable) : target.polled = target := by
  obtain ⟨firmware, stage⟩ := target
  cases stage with
  | idle | dnloadIdle | uploadIdle => rfl
  | busy | manifest | error => exact abortable.elim

/-- The device as it is when it has been brought there. -/
structure Rested (before after : World) : Prop where
  target : after.target = { before.target with stage := .idle }
  output : after.output = before.output

theorem statusRound_settles (abortable : world.target.stage.Abortable) : Settles (attached traits) halted (statusRound ())
    (fun outcome _ after => Rested world after ∧ match outcome with
      | .inl _ => world.target.stage ≠ .idle
      | .inr dst => dst.bStatus = dfuStatusOk) held world := by
  rw [statusRound]
  apply getStatus_settles.bind
  intro found kept after done
  obtain ⟨⟨dst, rfl, bState, bStatus⟩, rfl⟩ := done
  have same := polled_abortable abortable
  have still : (world.asked traits .getStatus).target = world.target := same
  rw [same] at bState bStatus
  apply milliSleep_settles
  cases stage : world.target.stage with
  | busy | manifest | error =>
    rw [stage] at abortable
    exact abortable.elim
  | idle =>
    rw [stage] at bState bStatus
    rw [bState, if_neg (by decide), if_neg (by decide), if_neg (by decide)]
    refine Settles.pure ⟨⟨?_, rfl⟩, bStatus⟩
    rw [still, ← stage]
  | dnloadIdle | uploadIdle =>
    rw [stage] at bState
    rw [bState, Stage.bState, if_neg (by decide), if_neg (by decide), if_pos (by decide)]
    apply (abort_settles (still ▸ abortable)).bind
    intro rc kept after done
    obtain ⟨accepted, rfl⟩ := done
    rw [if_neg (Int.not_lt.mpr accepted)]
    refine Settles.pure ⟨⟨?_, rfl⟩, by simp⟩
    rw [World.asked, Traits.serve, if_pos (still ▸ abortable)]
    dsimp only
    rw [still]

theorem settleStatus_settles (abortable : world.target.stage.Abortable) : Settles (attached traits) halted settleStatus
    (fun _ _ after => Rested world after) held world := by
  rw [settleStatus]
  apply @Settles.bind _ _ _ _ _ _ _ (fun dst _ after => dst.bStatus = dfuStatusOk ∧ Rested world after)
  · apply Settles.loop (fun _ _ now => now.target.stage.Abortable ∧ { now.target with stage := .idle } = { world.target with stage := Stage.idle } ∧
        now.output = world.output)
      (fun _ now => if now.target.stage = .idle then 0 else 1) ⟨abortable, rfl, rfl⟩
    intro _ kept now holds
    obtain ⟨able, target, output⟩ := holds
    apply (statusRound_settles able).imp
    intro outcome kept after done
    obtain ⟨rested, done⟩ := done
    cases outcome with
    | inl _ =>
      refine ⟨⟨?_, ?_, rested.output.trans output⟩, ?_⟩
      · rw [rested.target]
        trivial
      · rw [rested.target]
        exact target
      · rw [if_pos (by rw [rested.target]), if_neg done]
        exact Nat.one_pos
    | inr dst => exact ⟨done, rested.target.trans target, rested.output.trans output⟩
  · intro dst kept after done
    rw [retryStatus, if_neg (not_not.mpr done.1)]
    exact Settles.pure done.2

end Settling

section Blocks

variable {file : DfuFile} {xferSize : Int} {image : List UInt8} {blocks polls : Nat}

theorem pollStatus_settles (busy : world.target.stage = .busy image blocks polls) : Settles (attached traits) halted pollStatus
    (fun dst _ after => dst.bStatus = dfuStatusOk ∧ after.target = { world.target with stage := .dnloadIdle image blocks }) held world := by
  apply Settles.loop (fun _ _ now => ∃ left, now.target = { world.target with stage := .busy image blocks left })
    (fun _ now => match now.target.stage with
      | .busy _ _ left => left
      | _ => 0) ⟨polls, by rw [← busy]⟩
  intro _ kept now holds
  obtain ⟨left, there⟩ := holds
  apply getStatus_settles.bind
  intro found kept after done
  obtain ⟨⟨dst, rfl, bState, bStatus⟩, rfl⟩ := done
  have target : (now.asked traits .getStatus).target = now.target.polled := rfl
  rw [there] at bState bStatus
  cases left with
  | zero =>
    have idle : dst.bState = stateDfuDnloadIdle ∨ dst.bState = stateDfuError := .inl bState
    dsimp only
    rw [if_pos idle]
    refine Settles.pure ⟨bStatus, ?_⟩
    rw [target, there]
    rfl
  | succ left =>
    have waits : ¬(dst.bState = stateDfuDnloadIdle ∨ dst.bState = stateDfuError) := by
      rw [bState]
      exact not_or.mpr ⟨by simp only [Target.polled, Stage.bState]; decide, by simp only [Target.polled, Stage.bState]; decide⟩
    dsimp only
    rw [if_neg waits]
    apply milliSleep_settles
    refine Settles.pure ⟨⟨left, ?_⟩, ?_⟩
    · rw [target, there]
      rfl
    · rw [target, there]
      exact Nat.lt_succ_self left

theorem awaitManifest_settles (manifests : world.target.stage = .manifest image polls) : Settles (attached traits) halted awaitManifest
    (fun _ _ after => after.target = ⟨image, .idle⟩) held world := by
  apply Settles.loop (fun _ _ now => ∃ left, now.target = { world.target with stage := .manifest image left })
    (fun _ now => match now.target.stage with
      | .manifest _ left => left
      | _ => 0) ⟨polls, by rw [← manifests]⟩
  intro _ kept now holds
  obtain ⟨left, there⟩ := holds
  apply getStatus_settles.bind
  intro found kept after done
  obtain ⟨⟨dst, rfl, bState, bStatus⟩, rfl⟩ := done
  have target : (now.asked traits .getStatus).target = now.target.polled := rfl
  rw [there] at bState
  dsimp only
  apply milliSleep_settles
  cases left with
  | zero =>
    have idle : ¬(dst.bState = stateDfuManifestSync ∨ dst.bState = stateDfuManifest) := by
      rw [bState]
      exact not_or.mpr ⟨by simp only [Target.polled, Stage.bState]; decide, by simp only [Target.polled, Stage.bState]; decide⟩
    rw [if_neg idle]
    apply Settles.pure
    rw [target, there]
    rfl
  | succ left =>
    have waits : dst.bState = stateDfuManifestSync ∨ dst.bState = stateDfuManifest := .inr bState
    rw [if_pos waits]
    apply milliSleep_settles
    refine Settles.pure ⟨⟨left, ?_⟩, ?_⟩
    · rw [target, there]
      rfl
    · rw [target, there]
      exact Nat.lt_succ_self left

/-- The stage of a device that has the first blocks of the image. -/
def received (file : DfuFile) (xferSize : Int) (blocks : Nat) : Stage :=
  if blocks = 0 then .idle else .dnloadIdle ((Dfu.image file).take (blocks * xferSize.toNat)) blocks

theorem imageBlock_behind : (Dfu.image file).take (blocks * xferSize.toNat) ++ imageBlock file xferSize blocks =
    (Dfu.image file).take ((blocks + 1) * xferSize.toNat) := by
  rw [imageBlock, Nat.succ_mul, List.take_add]

section Serving

variable (fits : Fits file xferSize) {firmware : List UInt8}
include fits

theorem serve_block (more : More file xferSize blocks) (room : xferSize ≤ traits.transferSize.toNat) :
    traits.serve ⟨firmware, received file xferSize blocks⟩ (.dnload (UInt16.ofNat blocks) (imageBlock file xferSize blocks)) =
      (⟨firmware, .busy ((Dfu.image file).take ((blocks + 1) * xferSize.toNat)) (blocks + 1) (traits.programming blocks)⟩, .ack) := by
  have some_ : imageBlock file xferSize blocks ≠ [] := fun none_ => absurd more ((fits.nothing_iff blocks).mp none_)
  have small : ¬traits.transferSize.toNat < (imageBlock file xferSize blocks).length := by
    have short : (imageBlock file xferSize blocks).length ≤ xferSize.toNat := List.length_take_le _ _
    omega
  have taken (front : List UInt8) (same : front = (Dfu.image file).take (blocks * xferSize.toNat)) (stage : Stage) :
      traits.dnload ⟨firmware, stage⟩ front blocks (UInt16.ofNat blocks) (imageBlock file xferSize blocks) =
        (⟨firmware, .busy ((Dfu.image file).take ((blocks + 1) * xferSize.toNat)) (blocks + 1) (traits.programming blocks)⟩, .ack) := by
    rw [Traits.dnload, if_neg (not_or.mpr ⟨not_not.mpr rfl, small⟩), if_pos some_, same, imageBlock_behind]
  unfold received
  by_cases first : blocks = 0
  · subst first
    exact taken [] (by simp) .idle
  · rw [if_neg first]
    exact taken _ rfl _

/-- After the last block the empty one completes the image; without any, it is refused. -/
theorem serve_last (all : ¬More file xferSize blocks) :
    traits.serve ⟨firmware, received file xferSize blocks⟩ (.dnload (UInt16.ofNat blocks) []) =
      if Dfu.image file = [] then (⟨firmware, .error⟩, .stall) else (⟨firmware, .manifest (Dfu.image file) traits.manifesting⟩, .ack) := by
  rw [fits.more_iff] at all
  have whole : (Dfu.image file).take (blocks * xferSize.toNat) = Dfu.image file := List.take_of_length_le (Nat.not_lt.mp all)
  have turn : ¬(UInt16.ofNat blocks ≠ UInt16.ofNat blocks ∨ traits.transferSize.toNat < ([] : List UInt8).length) := by simp
  unfold received
  by_cases first : blocks = 0
  · subst first
    have nothing : Dfu.image file = [] := by
      rw [← List.length_eq_zero_iff]
      omega
    rw [if_pos rfl, if_pos nothing]
    rfl
  · rw [if_neg first, whole]
    change traits.dnload _ (Dfu.image file) blocks _ [] = _
    rw [Traits.dnload, if_neg turn, if_neg (by simp)]
    by_cases nothing : Dfu.image file = []
    · rw [if_neg (not_not.mpr nothing), if_pos nothing]
      rfl
    · rw [if_pos nothing, if_neg nothing]

theorem dnloadRound_settles (room : xferSize ≤ traits.transferSize.toNat) (small : xferSize ≤ qdaBufSize - 8)
    (there : world.target = ⟨firmware, received file xferSize blocks⟩) :
    Settles (attached traits) halted (dnloadRound file xferSize (progress file xferSize blocks)) (fun outcome _ after =>
      match outcome with
      | .inl s => More file xferSize blocks ∧ s = progress file xferSize (blocks + 1) ∧
          after.target = ⟨firmware, received file xferSize (blocks + 1)⟩
      | .inr (complete, s) => complete = true ∧ ¬More file xferSize blocks ∧ s = progress file xferSize blocks ∧
          after.target = ⟨firmware, received file xferSize blocks⟩) held world := by
  unfold dnloadRound
  by_cases more : More file xferSize blocks
  · have bytesSent : (progress file xferSize blocks).bytesSent < toInt (file.total - file.suffixSize) := more
    have short : (blockLength file xferSize blocks).toNat ≤ qdaBufSize - 8 := by
      have few : (imageBlock file xferSize blocks).length ≤ xferSize.toNat := List.length_take_le _ _
      have size : qdaBufSize = 8192 := rfl
      rw [fits.length_toNat]
      omega
    have number : (progress file xferSize blocks).transaction = UInt16.ofNat blocks := by rw [fits.progress_eq]
    have served := @serve_block traits file xferSize blocks fits firmware more room
    rw [← number] at served
    rw [if_pos bytesSent]
    apply (download_settles short (fits.source blocks more)).bind
    intro rc kept after done
    obtain ⟨rfl, taken⟩ := done
    rw [World.asked, there, served] at taken ⊢
    have accepted := taken.mpr rfl
    rw [if_neg (Int.not_lt.mpr accepted)]
    apply (pollStatus_settles rfl).bind
    intro dst kept after done
    obtain ⟨good, target⟩ := done
    rw [if_neg (not_not.mpr good)]
    refine Settles.pure ⟨more, rfl, ?_⟩
    rw [target, received, if_neg (Nat.succ_ne_zero blocks)]
  · have bytesSent : ¬(progress file xferSize blocks).bytesSent < toInt (file.total - file.suffixSize) := more
    rw [if_neg bytesSent]
    exact Settles.pure ⟨rfl, more, rfl, there⟩

theorem dfuloadDoDnload_settles (room : xferSize ≤ traits.transferSize.toNat) (small : xferSize ≤ qdaBufSize - 8)
    (there : world.target = ⟨firmware, .idle⟩)
    (nothing : Dfu.image file = [] → ∀ after, after.target.firmware = firmware → after.code = some exIoerr → halted after) :
    Settles (attached traits) halted (dfuloadDoDnload xferSize file) (fun rc _ after =>
      0 ≤ rc ∧ after.target = ⟨Dfu.image file, .idle⟩) held world := by
  have range := fits.xferSize
  rw [dfuloadDoDnload]
  apply @Settles.bind _ _ _ _ _ _ _ (fun result _ after => ∃ blocks, result = (true, progress file xferSize blocks) ∧
    ¬More file xferSize blocks ∧ after.target = ⟨firmware, received file xferSize blocks⟩)
  · apply Settles.loop (fun s _ now => ∃ blocks, s = progress file xferSize blocks ∧ now.target = ⟨firmware, received file xferSize blocks⟩)
      (fun s _ => (Dfu.image file).length - s.bytesSent.toNat) ⟨0, rfl, there⟩
    intro s kept now holds
    obtain ⟨blocks, rfl, target⟩ := holds
    apply (dnloadRound_settles fits room small target).imp
    intro outcome kept after done
    obtain next | ⟨complete, s⟩ := outcome
    · obtain ⟨more, rfl, target⟩ := done
      refine ⟨⟨blocks + 1, rfl, target⟩, ?_⟩
      rw [fits.more_iff] at more
      rw [fits.progress_eq, fits.progress_eq]
      simp only [Int.toNat_natCast, Nat.succ_mul]
      omega
    · obtain ⟨rfl, all, rfl, target⟩ := done
      exact ⟨blocks, rfl, all, target⟩
  · intro result kept after done
    obtain ⟨blocks, rfl, all, target⟩ := done
    have number : (progress file xferSize blocks).transaction = UInt16.ofNat blocks := by rw [fits.progress_eq]
    have sent : 0 ≤ (progress file xferSize blocks).bytesSent := by
      rw [fits.progress_eq]
      exact Int.natCast_nonneg _
    dsimp only
    rw [if_pos rfl]
    apply (@download_settles traits after halted kept 0 _ Pointer.null [] (by decide) rfl).bind
    intro rc kept last done
    obtain ⟨rfl, taken⟩ := done
    rw [number, World.asked, target, serve_last fits all] at taken ⊢
    by_cases empty : Dfu.image file = []
    · rw [if_pos empty] at taken ⊢
      have refused : rc < 0 := by
        by_contra accepted
        exact absurd (taken.mp (Int.not_lt.mp accepted)) (by simp)
      rw [if_pos refused]
      exact exit_settles (nothing empty _ rfl rfl)
    · rw [if_neg empty] at taken ⊢
      have accepted := taken.mpr rfl
      rw [if_neg (Int.not_lt.mpr accepted)]
      apply (awaitManifest_settles rfl).bind
      intro _ kept last installed
      exact Settles.pure ⟨sent, installed⟩

end Serving

end Blocks

section Loading

variable {file : DfuFile} {verbose : Nat} {checkSuffix : SuffixReq} {checkPrefix : PrefixReq} {part : History Calls}

theorem next_input (event : Event Calls) : (world.next traits event).input = unread world.input event := by
  obtain ⟨op, answer⟩ := event
  cases op <;> rfl

theorem after_input : ((attached traits).after world part).input = remaining world.input part := by
  induction part generalizing world with
  | nil => rfl
  | cons event part ih =>
    have further := @ih (world.next traits event)
    rw [next_input] at further
    exact further

theorem allows_supplied {event : Event Calls} (allowed : world.Allows event) : Supplied world.input event := by
  obtain ⟨op, answer⟩ := event
  cases op with
  | send | receive | serialDetach | serialIoOpen | openNew | write => trivial
  | _ => exact allowed

/-- The device notices nothing of what the host does on its own. -/
theorem after_target (local_ : ∀ event ∈ part, Local event.op) : ((attached traits).after world part).target = world.target := by
  induction part generalizing world with
  | nil => rfl
  | cons event part ih =>
    have same : (world.next traits event).target = world.target := by
      have aside := (local_ event List.mem_cons_self).1
      obtain ⟨op, answer⟩ := event
      cases op with
      | send data => exact absurd rfl (aside.1 data)
      | _ => rfl
    rw [← same]
    exact ih fun later member => local_ later (List.mem_cons_of_mem _ member)

theorem dfuLoadFile_settles (short : world.input.length < 2 ^ 31)
    (rejected : ∀ after spare code, examined file checkSuffix checkPrefix world.input spare = .error code → code ≠ 0 →
      after.target = world.target → after.code = some code → halted after) :
    Settles (attached traits) halted (dfuLoadFile verbose file checkSuffix checkPrefix) (fun loaded _ after =>
      (∃ spare, examined file checkSuffix checkPrefix world.input spare = .ok loaded) ∧ after.target = world.target) held world := by
  apply Settles.of_ends (dfuLoadFile_ends short)
  · intro part event allowed
    rw [Supplying, ← @after_input traits world part]
    exact allows_supplied allowed
  · intro part allowed run stopped
    have supplies := permitted_supplies.mp allowed
    have local_ := (run.performs (dfuLoadFile_local _ _ _ _ _)).2
    obtain calm | ⟨spare, code, error, before, _, rfl⟩ := (dfuLoadFile_spec short).safe run supplies
    · exact absurd calm stopped
    · have fails : code ≠ 0 := by simpa using (local_ ⟨.exit code, ()⟩ (by simp)).2
      apply rejected _ spare code error fails (after_target local_)
      rw [Environment.after_append]
      rfl
  · intro loaded kept part allowed run _
    have supplies := permitted_supplies.mp allowed
    have local_ := (run.performs (dfuLoadFile_local _ _ _ _ _)).2
    obtain ⟨spare, _, _, found, _⟩ := (dfuLoadFile_spec short).returns run supplies
    exact ⟨⟨spare, found⟩, after_target local_⟩

theorem attached_answerable (world : World) (op : Op) : ∃ answer, (attached traits).allows world ⟨op, answer⟩ := by
  cases op with
  | receive qdaBuf =>
    obtain ⟨message, encodes⟩ := world.reply.encodable
    have short : (message.take qdaBufSize).length ≤ qdaBufSize := List.length_take_le _ _
    exact ⟨(message.length, qdaBuf.store 0 (message.take qdaBufSize)), message, encodes,
      ⟨_, (QdaBuf.store_eq _ _ short).symm⟩, Nat.lt_add_of_pos_right (by decide)⟩
  | send | serialDetach | serialIoOpen | openNew => exact ⟨(0 : Int), Int.le_refl 0⟩
  | write _ data => exact ⟨(data.length : Int), rfl⟩
  | _ => exact supplied_answerable world.input _

theorem examined_fits {contents spare : List UInt8} {loaded : DfuFile} {xferSize : Int} (short : contents.length < 2 ^ 31)
    (found : examined file checkSuffix checkPrefix contents spare = .ok loaded) (range : 1 ≤ xferSize ∧ xferSize ≤ 65535) :
    Fits loaded xferSize := by
  obtain ⟨parsed, accepted, rfl, _⟩ := examined_accepted found
  obtain ⟨bytes, total, _, few⟩ := accepted.fresh
  obtain ⟨prefixType, prefixSize, lmdfuAddress, keeps⟩ := probePrefix_keeps parsed
  have most : parsed.suffixSize ≤ parsed.total := by
    cases accepted with
    | bare => exact Int.natCast_nonneg _
    | suffixed _ _ _ most => exact Int.ofNat_le.mpr most
  rw [keeps]
  refine ⟨⟨few.1, most⟩, ?_, ?_, range⟩
  · dsimp only
    omega
  · dsimp only
    rw [bytes, total, List.length_append]
    omega

end Loading

section Session

variable {pageSize : Option Int} {root : QdaIf} {argv : List Opt} {options : Options} {file : DfuFile}

/-- What `main` knows of an attached device when it comes to the transfer. -/
def sessionWith (traits : Traits) (options : Options) (file : DfuFile) (root : QdaIf) (size : UInt32) : Session where
  options := options
  file := file
  root := { root with
    altsetting := UInt8.ofInt options.matchIfaceAltIndex
    wTransferSize := traits.transferSize
    bcdDFUVersion := traits.bcdDfuVer }
  runtimeVendor := root.vendor
  runtimeProduct := root.product
  transferSize := adjustedSize size root.bMaxPacketSize0

theorem openDevice_settles : Settles (attached traits) halted (openDevice options root) (fun found _ after =>
    found = { root with
      altsetting := UInt8.ofInt options.matchIfaceAltIndex
      wTransferSize := traits.transferSize
      bcdDFUVersion := traits.bcdDfuVer } ∧
    after.target = world.target ∧ after.output = world.output) held world := by
  rw [openDevice]
  apply Settles.perform_seq
  intro ret opened
  have opened : (0 : Int) ≤ ret := opened
  rw [if_neg (Int.not_lt.mpr opened)]
  apply detach_settles.bind
  intro rc kept after done
  obtain ⟨rfl, rfl⟩ := done
  rw [if_neg (by decide)]
  apply (getDfuDesc_settles _).bind
  intro found kept after done
  obtain ⟨rfl, rfl⟩ := done
  exact Settles.pure ⟨rfl, rfl, rfl⟩

theorem prepareDevice_settles (abortable : world.target.stage.Abortable)
    (unsized : requestedSize pageSize options.transferSize traits.transferSize = none → ∀ after,
      after.target.firmware = world.target.firmware → after.code = some exIoerr → halted after) :
    Settles (attached traits) halted (prepareDevice pageSize options file root) (fun session _ after =>
      ∃ size, requestedSize pageSize options.transferSize traits.transferSize = some size ∧
        session = sessionWith traits options file root size ∧ Rested world after) held world := by
  rw [prepareDevice]
  apply openDevice_settles.bind
  intro found kept opened done
  obtain ⟨rfl, target, output⟩ := done
  apply (setAltSetting_settles _).bind
  intro rc kept after done
  obtain ⟨accepted, rfl⟩ := done
  have still : (opened.asked traits (.setAltSetting (UInt8.ofInt options.matchIfaceAltIndex))).target = world.target := target
  rw [if_neg (Int.not_lt.mpr accepted)]
  apply (settleStatus_settles (still ▸ abortable)).bind
  intro _ kept after rested
  have rested : Rested world after := ⟨by rw [rested.target, still], rested.output.trans output⟩
  dsimp only
  cases sized : requestedSize pageSize options.transferSize traits.transferSize with
  | none => exact exit_settles (unsized sized _ (by rw [rested.target]) rfl)
  | some size => exact Settles.pure ⟨size, rfl, rfl, rested⟩

theorem finish_settles {session : Session} (idle : world.target.stage = .idle) : Settles (attached traits) halted (finish session)
    (fun rc _ after => rc = 0 ∧ after.target = world.target ∧ after.output = world.output) held world := by
  have same : ({ world.target with stage := .idle } : Target) = world.target := by rw [← idle]
  rw [finish]
  split
  · apply reset_settles.bind
    intro rc kept after done
    obtain ⟨rfl, rfl⟩ := done
    rw [if_neg (by decide)]
    exact Settles.perform_seq fun _ _ => .pure ⟨rfl, same, rfl⟩
  · exact Settles.perform_seq fun _ _ => .pure ⟨rfl, rfl, rfl⟩

end Session

/-- Why the firmware of a file is not installed: the file does not pass the checks, it is not for this device,
there is nothing in it, or there is no transfer size. -/
inductive Uninstallable (traits : Traits) (pageSize : Option Int) (options : Options) (root : QdaIf) (contents : List UInt8) : Prop where
  | rejected (spare : List UInt8) (code : Nat)
      (error : examined (DfuFile.zero options.fileName) .maybe .maybe contents spare = .error code)
  | unsized (none_ : requestedSize pageSize options.transferSize traits.transferSize = none)
  | unfit (spare : List UInt8) (file : DfuFile) (size : UInt32)
      (found : examined (DfuFile.zero options.fileName) .maybe .maybe contents spare = .ok file)
      (bad : (∀ xferSize, (sessionWith traits options file root size).decision ≠ .dnload xferSize) ∨ Dfu.image file = [])

/-- The program ended with an error, for a reason, and the device has the firmware it had. -/
structure Spared (traits : Traits) (pageSize : Option Int) (options : Options) (root : QdaIf) (target : Target) (contents : List UInt8)
    (after : World) : Prop where
  firmware : after.target.firmware = target.firmware
  code : ∃ code, after.code = some code ∧ code ≠ 0
  reason : Uninstallable traits pageSize options root contents

theorem decision_xferSize {session : Session} {xferSize : Int} (decided : session.decision = .dnload xferSize) :
    xferSize = session.xferSize := by
  unfold Session.decision at decided
  split at decided
  · cases decided
  split at decided
  · cases decided
  · cases decided
    rfl

section Download

variable {pageSize : Option Int} {root : QdaIf} {options : Options} {file : DfuFile} {contents spare : List UInt8} {target : Target}
  {size : UInt32}

theorem transferDownload_settles (short : contents.length < 2 ^ 31)
    (found : examined (DfuFile.zero options.fileName) .maybe .maybe contents spare = .ok file)
    (range : 1 ≤ toInt (adjustedSize size root.bMaxPacketSize0).toNat ∧
      toInt (adjustedSize size root.bMaxPacketSize0).toNat ≤ min traits.transferSize.toNat 8184)
    (ready : world.target = ⟨target.firmware, .idle⟩) :
    Settles (attached traits) (Spared traits pageSize options root target contents)
      (transferDownload (sessionWith traits options file root size)) (fun _ _ after => after.target = ⟨Dfu.image file, .idle⟩) held world := by
  have refuses (code : Nat) (fails : code ≠ 0)
      (bad : ∀ xferSize, (sessionWith traits options file root size).decision ≠ .dnload xferSize) :
      Spared traits pageSize options root target contents { world with code := some code } :=
    ⟨by rw [ready], ⟨code, rfl, fails⟩, .unfit spare file size found (.inl bad)⟩
  have word := traits.transferSize.toNat_lt
  rw [transferDownload]
  cases decided : (sessionWith traits options file root size).decision with
  | mismatch => exact exit_settles (refuses _ (by decide) (by simp [decided]))
  | unsupported => exact exit_settles (refuses _ (by decide) (by simp [decided]))
  | dnload xferSize =>
    have passed : xferSize = toInt (adjustedSize size root.bMaxPacketSize0).toNat := decision_xferSize decided
    rw [← passed] at range
    have limit : (qdaBufSize : Int) - 8 = 8184 := rfl
    have fits := examined_fits short found (show 1 ≤ xferSize ∧ xferSize ≤ 65535 by omega)
    apply (dfuloadDoDnload_settles fits (by omega) (by omega) ready ?_).bind
    · intro rc kept after done
      obtain ⟨sent, installed⟩ := done
      rw [if_neg (Int.not_lt.mpr sent)]
      exact Settles.pure installed
    · intro nothing after same exits
      exact ⟨same, ⟨_, exits, by decide⟩, .unfit spare file size found (.inr nothing)⟩

end Download

/-- A download is asked for, to a device that can be made idle, in blocks that suit the device and the transport. -/
structure Requested (traits : Traits) (pageSize : Option Int) (root : QdaIf) (argv : List Opt) (options : Options) (target : Target)
    (contents : List UInt8) : Prop where
  given : readOptions argv = some options
  mode : options.mode = .download
  short : contents.length < 2 ^ 31
  abortable : target.stage.Abortable
  sized : ∀ size, requestedSize pageSize options.transferSize traits.transferSize = some size →
    1 ≤ toInt (adjustedSize size root.bMaxPacketSize0).toNat ∧
    toInt (adjustedSize size root.bMaxPacketSize0).toNat ≤ min traits.transferSize.toNat 8184

/-- The firmware of the device is the image of the file. -/
def Installed (options : Options) (contents : List UInt8) (after : World) : Prop := ∃ spare file,
  examined (DfuFile.zero options.fileName) .maybe .maybe contents spare = .ok file ∧ after.target = ⟨Dfu.image file, .idle⟩

theorem main_installs {traits : Traits} {pageSize : Option Int} {root : QdaIf} {argv : List Opt} {options : Options} {target : Target}
    {contents : List UInt8} (requested : Requested traits pageSize root argv options target contents) (qdaBuf : QdaBuf) :
    Settles (attached traits) (Spared traits pageSize options root target contents) (main pageSize root argv)
      (fun rc _ after => rc = 0 ∧ Installed options contents after) qdaBuf (World.start target contents) := by
  obtain ⟨given, mode, short, abortable, sized⟩ := requested
  rw [main, prepare, given]
  dsimp only
  rw [if_neg (by rw [mode]; decide), if_neg (by rw [mode]; decide), if_pos mode, bind_assoc]
  apply (dfuLoadFile_settles short ?_).bind
  · intro file kept after done
    obtain ⟨⟨spare, found⟩, same⟩ := done
    have able : after.target.stage.Abortable := same ▸ abortable
    have firmware : after.target.firmware = target.firmware := congrArg Target.firmware same
    apply (prepareDevice_settles able ?_).bind
    · intro session kept ready done
      obtain ⟨size, requested, rfl, rested⟩ := done
      have there : ready.target = ⟨target.firmware, .idle⟩ := by rw [rested.target, ← firmware]
      have transfers : transfer (sessionWith traits options file root size) = transferDownload (sessionWith traits options file root size) := by
        rw [transfer, sessionWith, mode]
      rw [transfers]
      apply (transferDownload_settles short found (sized size requested) there).bind
      intro _ kept last installed
      apply (finish_settles (by rw [installed])).imp
      intro rc _ final done
      exact ⟨done.1, spare, file, found, done.2.1.trans installed⟩
    · intro none_ last same exits
      exact ⟨same.trans firmware, ⟨_, exits, by decide⟩, .unsized none_⟩
  · intro after spare code error fails same exits
    exact ⟨congrArg Target.firmware same, ⟨code, exits, fails⟩, .rejected spare code error⟩

/-- On a device that is attached and can be made idle, a download ends. Either the image of the file is the device's firmware
then, or there is a reason against it and the device has the firmware it had. -/
theorem firmware_installed {traits : Traits} {pageSize : Option Int} {root : QdaIf} {argv : List Opt} {options : Options} {target : Target}
    {contents : List UInt8} (requested : Requested traits pageSize root argv options target contents) (qdaBuf : QdaBuf) :
    Ends ((attached traits).permits (World.start target contents))
      (fun now => Spared traits pageSize options root target contents ((attached traits).after (World.start target contents) now))
      (fun result now => result.1 = 0 ∧ Installed options contents ((attached traits).after (World.start target contents) now))
      [] ((main pageSize root argv).run qdaBuf) :=
  main_installs requested qdaBuf (World.start target contents) [] rfl

section Example

/-- A device of 64-byte blocks that takes its time. -/
def smallTraits : Traits := ⟨64, 0x0110, fun blocks => blocks + 1, 2⟩

def blankRoot : QdaIf := ⟨0, 0, 0, 0, 0, 0, 0⟩

theorem small_size {size : UInt32} (requested : requestedSize none 0 smallTraits.transferSize = some size) :
    1 ≤ toInt (adjustedSize size blankRoot.bMaxPacketSize0).toNat ∧
    toInt (adjustedSize size blankRoot.bMaxPacketSize0).toNat ≤ min smallTraits.transferSize.toNat 8184 := by
  cases requested
  have same : toInt (adjustedSize 64 0).toNat = 64 := toInt_of_range (by decide) (by decide)
  exact ⟨same ▸ (by decide), same ▸ (by decide)⟩

theorem one_byte_accepted {spare : List UInt8} {file : DfuFile}
    (found : examined (DfuFile.zero "firmware.bin") .maybe .maybe [0x2a] spare = .ok file) :
    file.idVendor = 0xffff ∧ file.idProduct = 0xffff ∧ file.bcdDFU = 0 ∧ Dfu.image file = [0x2a] := by
  obtain ⟨parsed, accepted, rfl, _⟩ := examined_accepted found
  obtain ⟨prefixType, prefixSize, lmdfuAddress, keeps⟩ := probePrefix_keeps parsed
  rw [keeps]
  cases accepted with
  | bare => exact ⟨rfl, rfl, rfl, rfl⟩
  | suffixed some_ => exact absurd some_.long (by decide)

def smallOptions : Options := { mode := .download, fileName := "firmware.bin" }

theorem one_byte_requested (target : Target) (abortable : target.stage.Abortable) :
    Requested smallTraits none blankRoot [.download "firmware.bin"] smallOptions target [0x2a] where
  given := rfl
  mode := rfl
  short := by decide
  abortable := abortable
  sized := fun _ requested => small_size requested

theorem one_byte_suits : ¬Uninstallable smallTraits none smallOptions blankRoot [0x2a] := by
  have bare : ¬HasSuffix [0x2a] := fun suffix => absurd suffix.long (by decide)
  intro reason
  cases reason with
  | rejected spare code error =>
    obtain ⟨_, _, accepted⟩ := @examined_occurs [0x2a] spare (DfuFile.zero "firmware.bin") .maybe (fun _ => by decide) (absurd · bare)
    cases accepted.symm.trans error
  | unsized none_ => cases none_
  | unfit spare file size found bad =>
    obtain ⟨vendor, product, version, image⟩ := one_byte_accepted found
    obtain undecided | empty := bad
    · have decided : (sessionWith smallTraits smallOptions file blankRoot size).decision =
          .dnload (sessionWith smallTraits smallOptions file blankRoot size).xferSize := by
        rw [Session.decision, if_neg, if_neg]
        · simp [Session.dfuseDevice, sessionWith, smallTraits, version]
        · simp [Session.mismatch, sessionWith, vendor, product]
      exact undecided _ decided
    · cases image.symm.trans empty

theorem one_byte_image {after : World} (installed : Installed smallOptions [0x2a] after) : after.target = ⟨[0x2a], .idle⟩ := by
  obtain ⟨spare, file, found, target⟩ := installed
  rw [target, (one_byte_accepted found).2.2.2]

/-- One byte is installed on a device that was being read. -/
theorem one_byte_installed : ∃ now held,
    Runs ((main none blankRoot [.download "firmware.bin"]).run QdaBuf.blank) now (.ret (0, held)) ∧
    ((attached smallTraits).after (World.start ⟨[1, 2, 3], .uploadIdle 2 1⟩ [0x2a]) now).target = ⟨[0x2a], .idle⟩ := by
  have ends := firmware_installed (one_byte_requested ⟨[1, 2, 3], .uploadIdle 2 1⟩ trivial) QdaBuf.blank
  obtain ⟨now, _, ⟨_, spared⟩ | ⟨⟨rc, held⟩, run, rfl, installed⟩⟩ := ends.completes fun now op => attached_answerable _ op
  · exact absurd spared.reason one_byte_suits
  · exact ⟨now, held, run, one_byte_image installed⟩

end Example

end DfuUtilQda.Device

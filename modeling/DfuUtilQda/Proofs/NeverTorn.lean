import DfuUtilQda.Device.Remote
import DfuUtilQda.Interaction.Safety
import DfuUtilQda.Proofs.Installing
import DfuUtilQda.Proofs.TransferSize

/-! Whatever becomes of a download, the device is not left with part of an image: over
a transport that nothing can be expected of, at every moment of every execution, its
firmware is the one it had or the image of the file. -/

namespace DfuUtilQda.Device
open Interaction Machine Qda Host Dfu

section Targets

variable {traits : Traits} {target : Target} {request : Request} {file : DfuFile} {xferSize : Int} {blocks : Nat}
  {firmware image : List UInt8}

/-- The device has no part of an image. -/
def Stage.Clear : Stage → Prop
  | .idle | .uploadIdle _ _ | .error => True
  | .busy _ _ _ | .dnloadIdle _ _ | .manifest _ _ => False

/-- The device has these blocks of the image, if it has any. -/
def Stage.Holds (file : DfuFile) (xferSize : Int) (blocks : Nat) : Stage → Prop
  | .idle => blocks = 0
  | .busy image count _ | .dnloadIdle image count => image = (Dfu.image file).take (blocks * xferSize.toNat) ∧ count = blocks
  | .manifest _ _ => False
  | .uploadIdle _ _ | .error => True

/-- Without another block there will be no other firmware than the old one and this image. -/
structure Secure (firmware image : List UInt8) (target : Target) : Prop where
  installed : target.firmware = firmware ∨ target.firmware = image
  manifests : ∀ received polls, target.stage = .manifest received polls → received = image

/-- The device has the firmware it had, and nothing besides it. -/
structure Fresh (firmware : List UInt8) (target : Target) : Prop where
  same : target.firmware = firmware
  clear : target.stage.Clear

/-- The device has the firmware it had, and the first blocks of the image. -/
structure Receiving (firmware : List UInt8) (file : DfuFile) (xferSize : Int) (blocks : Nat) (target : Target) : Prop where
  same : target.firmware = firmware
  holds : target.stage.Holds file xferSize blocks

theorem Fresh.receiving (fresh : Fresh firmware target) : Receiving firmware file xferSize 0 target := by
  obtain ⟨same, clear⟩ := fresh
  refine ⟨same, ?_⟩
  cases stage : target.stage with
  | idle => rfl
  | uploadIdle | error => trivial
  | busy | dnloadIdle | manifest =>
    rw [stage] at clear
    exact clear.elim

theorem Receiving.secure (receiving : Receiving firmware file xferSize blocks target) : Secure firmware image target := by
  obtain ⟨same, holds⟩ := receiving
  refine ⟨.inl same, fun received polls stage => ?_⟩
  rw [stage] at holds
  exact holds.elim

theorem Fresh.secure (fresh : Fresh firmware target) : Secure firmware image target := by
  obtain ⟨same, clear⟩ := fresh
  refine ⟨.inl same, fun received polls stage => ?_⟩
  rw [stage] at clear
  exact clear.elim

/-- A request that is not for a block. -/
def Request.Blockless (request : Request) : Prop := ∀ block data, request ≠ .dnload block data

theorem Fresh.rest {stage : Stage} (fresh : Fresh firmware target) (clear : stage.Clear) : Fresh firmware { target with stage } :=
  ⟨fresh.same, clear⟩

theorem Secure.rest {stage : Stage} (secure : Secure firmware image target) (clear : stage.Clear) :
    Secure firmware image { target with stage } := by
  refine ⟨secure.installed, fun received polls manifests => ?_⟩
  obtain rfl : stage = .manifest received polls := manifests
  exact clear.elim

theorem Fresh.polled (fresh : Fresh firmware target) : Fresh firmware target.polled := by
  obtain ⟨same, clear⟩ := fresh
  obtain ⟨old, stage⟩ := target
  cases stage with
  | idle | uploadIdle | error => exact ⟨same, clear⟩
  | busy | dnloadIdle | manifest => exact clear.elim

theorem Receiving.polled (receiving : Receiving firmware file xferSize blocks target) :
    Receiving firmware file xferSize blocks target.polled := by
  obtain ⟨same, holds⟩ := receiving
  obtain ⟨old, stage⟩ := target
  cases stage with
  | idle | uploadIdle | dnloadIdle | error => exact ⟨same, holds⟩
  | busy image count polls => cases polls <;> exact ⟨same, holds⟩
  | manifest => exact holds.elim

theorem Secure.polled (secure : Secure firmware image target) : Secure firmware image target.polled := by
  obtain ⟨installed, manifests⟩ := secure
  obtain ⟨old, stage⟩ := target
  cases stage with
  | idle | uploadIdle | dnloadIdle | error => exact ⟨installed, manifests⟩
  | busy received count polls => cases polls <;> exact ⟨installed, by simp [Target.polled]⟩
  | manifest received polls =>
    obtain rfl := manifests received polls rfl
    cases polls with
    | zero => exact ⟨.inr rfl, by simp [Target.polled]⟩
    | succ polls => exact ⟨installed, by simp [Target.polled]⟩

theorem serve_keeps {keeps : Target → Prop} (rests : ∀ stage : Stage, stage.Clear → keeps { target with stage })
    (polled : keeps target.polled) (kept : keeps target) (blockless : request.Blockless) : keeps (traits.serve target request).1 := by
  have uploads (offset count : Nat) (len block : UInt16) : keeps (traits.upload target offset count len block).1 := by
    unfold Traits.upload
    split
    · exact rests .error trivial
    · apply rests
      split <;> trivial
  cases request with
  | dnload block data => exact absurd rfl (blockless block data)
  | dfuDesc | setAltSetting | getState => exact kept
  | reset => exact rests .idle trivial
  | getStatus => exact polled
  | clrStatus | abort =>
    unfold Traits.serve
    dsimp only
    split
    · exact rests .idle trivial
    · exact rests .error trivial
  | upload len block =>
    unfold Traits.serve
    dsimp only
    split
    · exact uploads _ _ _ _
    · exact uploads _ _ _ _
    · exact rests .error trivial
  | devDesc | other => exact rests .error trivial

theorem Fresh.serve (blockless : request.Blockless) (fresh : Fresh firmware target) : Fresh firmware (traits.serve target request).1 :=
  serve_keeps (fun _ => fresh.rest) fresh.polled fresh blockless

theorem Secure.serve (blockless : request.Blockless) (secure : Secure firmware image target) :
    Secure firmware image (traits.serve target request).1 :=
  serve_keeps (fun _ => secure.rest) secure.polled secure blockless

section Blocks

variable (fits : Fits file xferSize) (receiving : Receiving firmware file xferSize blocks target)

theorem Receiving.serve {keeps : Target → Prop} {block : UInt16} {data : List UInt8}
    (receiving : Receiving firmware file xferSize blocks target)
    (taken : keeps (traits.dnload target ((Dfu.image file).take (blocks * xferSize.toNat)) blocks block data).1)
    (refused : keeps target.stalled.1) : keeps (traits.serve target (.dnload block data)).1 := by
  have holds := receiving.holds
  unfold Traits.serve
  cases stage : target.stage with
  | idle =>
    rw [stage] at holds
    obtain rfl : blocks = 0 := holds
    rwa [Nat.zero_mul, List.take_zero] at taken
  | dnloadIdle front count =>
    rw [stage] at holds
    obtain ⟨rfl, rfl⟩ := holds
    exact taken
  | busy | manifest | uploadIdle | error => exact refused

include fits receiving

theorem block_received (more : More file xferSize blocks) : Receiving firmware file xferSize (blocks + 1)
    (traits.serve target (.dnload (UInt16.ofNat blocks) (imageBlock file xferSize blocks))).1 := by
  have some_ : imageBlock file xferSize blocks ≠ [] := fun none_ => absurd more ((fits.nothing_iff blocks).mp none_)
  have refused : Receiving firmware file xferSize (blocks + 1) target.stalled.1 := ⟨receiving.same, trivial⟩
  apply receiving.serve _ refused
  rw [Traits.dnload, if_pos some_, imageBlock_behind]
  split
  · exact refused
  · exact ⟨receiving.same, rfl, rfl⟩

theorem end_received (all : ¬More file xferSize blocks) :
    Secure firmware (Dfu.image file) (traits.serve target (.dnload (UInt16.ofNat blocks) [])).1 := by
  rw [fits.more_iff] at all
  have whole : (Dfu.image file).take (blocks * xferSize.toNat) = Dfu.image file := List.take_of_length_le (Nat.not_lt.mp all)
  have refused : Secure firmware (Dfu.image file) target.stalled.1 := Secure.rest receiving.secure trivial
  apply receiving.serve _ refused
  rw [whole, Traits.dnload, if_neg (not_not.mpr rfl)]
  split
  · exact refused
  split
  · refine ⟨.inl receiving.same, fun received polls manifests => ?_⟩
    cases manifests
    rfl
  · exact refused

end Blocks

end Targets

section Calls

variable {traits : Traits} {arrives : Nat → Bool} {remote : Remote} {good : Remote → Prop} {held : QdaBuf} {α : Type}

theorem ask_safe {request : Request} (fits : request.Fits) (small : request.message.length ≤ qdaBufSize) (fine : good remote)
    (given : good (remote.given traits arrives request)) :
    Safe (outOfReach traits arrives) good (ask qdaConf request.message qdaPktAck) (fun ok _ after =>
      after = remote.given traits arrives request ∧ (ok = true → after.heard = true)) held remote := by
  have decoded := request.decode_alone fits
  have sent (rc : Int) : (outOfReach traits arrives).after remote [⟨.send request.message, rc⟩] =
      remote.given traits arrives request := by
    change remote.given traits arrives (Request.decode request.message) = _
    rw [decoded]
  rw [Safe, ask_tree _ _ _ small, wp_call]
  refine ⟨fun _ => fine, fun rc => ?_⟩
  rw [List.nil_append]
  by_cases refused : rc < 0
  · rw [if_pos refused, wp_ret, sent]
    exact ⟨fun _ => given, fun _ => ⟨rfl, by simp⟩⟩
  · rw [if_neg refused, wp_call, sent]
    refine ⟨fun _ => given, fun answer => (wp_ret _).mpr ?_⟩
    have received : (outOfReach traits arrives).after remote
        ([⟨.send request.message, rc⟩] ++ [⟨.receive (held.store 0 request.message), answer⟩]) =
          remote.given traits arrives request := by
      rw [Environment.after_append, sent]
      rfl
    rw [received]
    refine ⟨fun _ => given, fun allowed => ⟨rfl, fun ok => ?_⟩⟩
    obtain ⟨_, allowed⟩ := permitted_snoc.mp allowed
    rw [List.nil_append, Environment.permits, sent] at allowed
    exact allowed (of_decide_eq_true ok)

theorem exit_safe {code : Nat} {post : α → QdaBuf → Remote → Prop} (fine : good remote)
    (still : good { remote with world := { remote.world with code := some code } }) :
    Safe (outOfReach traits arrives) good (Host.exit code : Host.Code α) post held remote :=
  .perform_seq fine fun _ _ => .halt still

section Quiet

variable {asks : Request → Prop} {keeps : Target → Prop} {codes : Nat → Prop} {event : Event Calls}

/-- A message for one of these requests. -/
def Asking (asks : Request → Prop) (data : List UInt8) : Prop := asks (Request.decode data)

theorem message_asking {request : Request} (fits : request.Fits) (asked : asks request) : Asking asks request.message := by
  have decoded := request.decode_alone fits
  rw [Asking, decoded]
  exact asked

theorem inquiry_blockless {data : List UInt8} (inquiry : Inquiry data) : Asking Request.Blockless data := by
  cases inquiry with
  | dfuDesc => exact @message_asking _ .dfuDesc trivial (by simp [Request.Blockless])
  | setAlt alt => exact @message_asking _ (.setAltSetting alt) trivial (by simp [Request.Blockless])
  | getstatus => exact @message_asking _ .getStatus trivial (by simp [Request.Blockless])
  | getstate => exact @message_asking _ .getState trivial (by simp [Request.Blockless])
  | abort => exact @message_asking _ .abort trivial (by simp [Request.Blockless])

/-- What the device keeps when it serves these requests, it keeps as long as no other one is made. -/
theorem asking_safe {code : Host.Code α} (performs : Static.Performs (Within codes (Asking asks)) code)
    (serves : ∀ target request, asks request → keeps target → keeps (traits.serve target request).1)
    (implies : ∀ remote : Remote, keeps remote.world.target → good remote) (kept : keeps remote.world.target) :
    Safe (outOfReach traits arrives) good code (fun _ _ after => keeps after.world.target) held remote := by
  have step (remote : Remote) (event : Event Calls) (known : Within codes (Asking asks) event.op) (kept : keeps remote.world.target) :
      keeps (remote.next traits arrives event).world.target := by
    obtain ⟨op, answer⟩ := event
    cases op with
    | send data =>
      change keeps (remote.given traits arrives (Request.decode data)).world.target
      rw [Remote.given]
      split
      · exact serves _ _ known kept
      · exact kept
    | _ => exact kept
  have safe : Safe (outOfReach traits arrives) (fun remote => keeps remote.world.target) code
      (fun _ _ after => keeps after.world.target) held remote :=
    .of_performs performs (fun remote event known _ kept => step remote event known kept) kept
  exact safe.weaken implies

end Quiet

theorem download_safe {len block : UInt16} {data : Pointer} {bytes : List UInt8} (loaded : data.load len.toNat = some bytes)
    (fine : good remote) (given : good (remote.given traits arrives (.dnload block bytes))) :
    Safe (outOfReach traits arrives) good (dfuDownload qdaConf len block data) (fun rc _ after =>
      (after = remote ∨ after = remote.given traits arrives (.dnload block bytes)) ∧
      (0 ≤ rc → after = remote.given traits arrives (.dnload block bytes) ∧ after.heard = true)) held remote := by
  have count := Pointer.load_length loaded
  rw [dfuDownload, qdaDfuDownload_eq]
  split
  next => exact .modify_seq (.pure fine ⟨.inl rfl, by simp⟩)
  next room =>
    rw [loaded]
    dsimp only
    rw [← dnload_message count]
    apply (ask_safe (dnload_fits count) (dnload_short count (Nat.not_lt.mp room)) fine given).bind
    intro ok kept after done
    obtain ⟨rfl, acknowledged⟩ := done
    cases ok with
    | true => exact .pure given ⟨.inr rfl, fun _ => ⟨rfl, acknowledged rfl⟩⟩
    | false => exact .pure given ⟨.inr rfl, by simp⟩

end Calls

section Download

variable {traits : Traits} {arrives : Nat → Bool} {remote : Remote} {held : QdaBuf} {file : DfuFile} {xferSize : Int} {blocks : Nat}
  {firmware : List UInt8}

/-- Nothing can come of it but the old firmware or the image of the file. -/
def Remote.Secure (firmware image : List UInt8) (remote : Remote) : Prop := Device.Secure firmware image remote.world.target

theorem pollStatus_safe (receiving : Receiving firmware file xferSize blocks remote.world.target) :
    Safe (outOfReach traits arrives) (Remote.Secure firmware (Dfu.image file)) pollStatus
      (fun _ _ after => Receiving firmware file xferSize blocks after.world.target) held remote := by
  have asked : Asking (· = .getStatus) getstatusRequest := @message_asking _ .getStatus trivial rfl
  have performs : Static.Performs (Within (fun _ => True) (Asking (· = .getStatus))) pollStatus :=
    pollStatus_within (fun _ _ => trivial) asked
  apply asking_safe performs _ (fun _ kept => kept.secure) receiving
  rintro target request rfl kept
  exact kept.polled

theorem awaitManifest_safe (secure : remote.Secure firmware (Dfu.image file)) :
    Safe (outOfReach traits arrives) (Remote.Secure firmware (Dfu.image file)) awaitManifest
      (fun _ _ after => after.Secure firmware (Dfu.image file)) held remote := by
  have asked : Asking (· = .getStatus) getstatusRequest := @message_asking _ .getStatus trivial rfl
  have performs : Static.Performs (Within (fun _ => True) (Asking (· = .getStatus))) awaitManifest := by
    rw [awaitManifest]
    refine .loop fun _ => .bind (getstatus_within asked) fun reported => ?_
    split
    · exact .pure _
    refine .bind (milliSleep_within _) fun _ => ?_
    split
    · exact .bind (milliSleep_within _) fun _ => .pure _
    · exact .pure _
  apply asking_safe performs _ (fun _ kept => kept) secure
  rintro target request rfl kept
  exact Secure.polled kept

section Given

variable {request : Request} {keeps : Target → Prop}

theorem given_keeps (kept : keeps remote.world.target) (served : keeps (traits.serve remote.world.target request).1) :
    keeps (remote.given traits arrives request).world.target := by
  rw [Remote.given]
  split
  · exact served
  · exact kept

theorem given_arrived (heard : (remote.given traits arrives request).heard = true)
    (served : keeps (traits.serve remote.world.target request).1) : keeps (remote.given traits arrives request).world.target := by
  have arrived : arrives remote.handed = true := heard
  rw [Remote.given, if_pos arrived]
  exact served

end Given

variable (fits : Fits file xferSize)
include fits

theorem dnloadRound_safe (receiving : Receiving firmware file xferSize blocks remote.world.target) :
    Safe (outOfReach traits arrives) (Remote.Secure firmware (Dfu.image file)) (dnloadRound file xferSize (progress file xferSize blocks))
      (fun outcome _ after => match outcome with
        | .inl s => s = progress file xferSize (blocks + 1) ∧ Receiving firmware file xferSize (blocks + 1) after.world.target
        | .inr (complete, s) => if complete then s = progress file xferSize blocks ∧ ¬More file xferSize blocks ∧
            Receiving firmware file xferSize blocks after.world.target else after.Secure firmware (Dfu.image file)) held remote := by
  unfold dnloadRound
  by_cases more : More file xferSize blocks
  · have bytesSent : (progress file xferSize blocks).bytesSent < toInt (file.total - file.suffixSize) := more
    have number : (progress file xferSize blocks).transaction = UInt16.ofNat blocks := by rw [fits.progress_eq]
    have served := @block_received traits _ _ _ _ _ fits receiving more
    rw [← number] at served
    rw [if_pos bytesSent]
    apply (download_safe (fits.source blocks more) receiving.secure (given_keeps receiving.secure served.secure)).bind
    intro rc kept after done
    obtain ⟨either, acknowledged⟩ := done
    by_cases refused : rc < 0
    · rw [if_pos refused]
      have secure : after.Secure firmware (Dfu.image file) := by
        obtain rfl | rfl := either
        · exact receiving.secure
        · exact given_keeps receiving.secure served.secure
      exact .pure secure secure
    · rw [if_neg refused]
      obtain ⟨rfl, heard⟩ := acknowledged (Int.not_lt.mp refused)
      apply (pollStatus_safe (given_arrived heard served)).bind
      intro dst kept last further
      split
      · exact .pure further.secure further.secure
      · exact .pure further.secure ⟨rfl, further⟩
  · have bytesSent : ¬(progress file xferSize blocks).bytesSent < toInt (file.total - file.suffixSize) := more
    rw [if_neg bytesSent]
    exact .pure receiving.secure ⟨rfl, more, receiving⟩

theorem dfuloadDoDnload_safe (receiving : Receiving firmware file xferSize 0 remote.world.target) :
    Safe (outOfReach traits arrives) (Remote.Secure firmware (Dfu.image file)) (dfuloadDoDnload xferSize file)
      (fun _ _ after => after.Secure firmware (Dfu.image file)) held remote := by
  rw [dfuloadDoDnload]
  apply @Safe.bind _ _ _ _ _ _ _ (fun result _ after => if result.1 then ∃ blocks, result.2 = progress file xferSize blocks ∧
    ¬More file xferSize blocks ∧ Receiving firmware file xferSize blocks after.world.target else after.Secure firmware (Dfu.image file))
  · apply Safe.loop (fun s _ now => ∃ blocks, s = progress file xferSize blocks ∧
      Receiving firmware file xferSize blocks now.world.target) ⟨0, rfl, receiving⟩
    intro s kept now holds
    obtain ⟨blocks, rfl, receiving⟩ := holds
    apply (dnloadRound_safe fits receiving).imp
    intro outcome kept after done
    obtain next | ⟨complete, s⟩ := outcome
    · exact ⟨blocks + 1, done⟩
    · cases complete with
      | true => exact ⟨blocks, done⟩
      | false => exact done
  · intro result kept after done
    obtain ⟨complete, s⟩ := result
    cases complete with
    | true =>
      obtain ⟨blocks, rfl, all, receiving⟩ := done
      have number : (progress file xferSize blocks).transaction = UInt16.ofNat blocks := by rw [fits.progress_eq]
      have served := @end_received traits _ _ _ _ _ fits receiving all
      rw [← number] at served
      have given : (after.given traits arrives (.dnload (progress file xferSize blocks).transaction [])).Secure firmware (Dfu.image file) :=
        given_keeps receiving.secure served
      apply (@download_safe traits arrives after _ kept 0 _ Pointer.null [] rfl receiving.secure given).bind
      intro rc kept last done
      have secure : last.Secure firmware (Dfu.image file) := by
        obtain ⟨rfl | rfl, _⟩ := done
        · exact receiving.secure
        · exact given
      split
      · exact exit_safe secure secure
      · apply (awaitManifest_safe secure).bind
        intro _ kept final secure
        exact .pure secure secure
    | false => exact .pure done done

end Download

section Preparing

variable {traits : Traits} {arrives : Nat → Bool} {remote : Remote} {part : History Calls} {target : Target} {contents : List UInt8}
  {pageSize : Option Int} {root : QdaIf} {argv : List Opt} {options : Options} {session : Session} {qdaBuf held : QdaBuf}

theorem next_unread (event : Event Calls) : (remote.next traits arrives event).world.input = unread remote.world.input event := by
  obtain ⟨op, answer⟩ := event
  cases op with
  | send data =>
    change (remote.given traits arrives (Request.decode data)).world.input = remote.world.input
    rw [Remote.given]
    split <;> rfl
  | _ => rfl

theorem after_unread : ((outOfReach traits arrives).after remote part).world.input = remaining remote.world.input part := by
  induction part generalizing remote with
  | nil => rfl
  | cons event part ih =>
    have further := @ih (remote.next traits arrives event)
    rw [next_unread] at further
    exact further

theorem Remote.Allows.supplied {event : Event Calls} (allowed : remote.Allows event) : Supplied remote.world.input event := by
  obtain ⟨op, answer⟩ := event
  cases op with
  | send | receive | serialDetach | serialIoOpen | openNew | write => trivial
  | _ => exact allowed

theorem permitted_reads (permitted : Permitted ((outOfReach traits arrives).permits remote) [] part) :
    Supplies remote.world.input part := by
  induction part using List.reverseRecOn with
  | nil => trivial
  | append_singleton part event ih =>
    obtain ⟨before, allowed⟩ := permitted_snoc.mp permitted
    rw [supplies_snoc, ← @after_unread traits arrives]
    exact ⟨ih before, allowed.supplied⟩

/-- What a session is about: the file it was asked to download, in blocks whose length can be given in 16 bits. -/
structure Grounded (options : Options) (contents : List UInt8) (session : Session) : Prop where
  mode : session.options = options
  found : options.mode = .download → ∃ spare,
    examined (DfuFile.zero options.fileName) .maybe .maybe contents spare = .ok session.file
  range : 1 ≤ session.xferSize ∧ session.xferSize ≤ 65535

theorem prepare_grounded (given : readOptions argv = some options) (short : contents.length < 2 ^ 31)
    (representable : ∀ wTransferSize, Representable pageSize options.transferSize wTransferSize root.bMaxPacketSize0)
    (supplied : Supplies contents part) (run : Runs ((prepare pageSize root argv).run qdaBuf) part (.ret (session, held))) :
    Grounded options contents session := by
  obtain ⟨again, size, sized⟩ := prepare_rebase run root
  have same : session = session.rebase pageSize root := congrArg Prod.fst (Runs.same_value run again)
  have passed : session.xferSize = toInt (adjustedSize size root.bMaxPacketSize0).toNat := by
    rw [Session.xferSize, same, Session.rebase, sized]
    rfl
  have mode : session.options = options := Option.some.inj ((prepare_options run).symm.trans given)
  refine ⟨mode, fun download => ?_, ?_⟩
  · rw [prepare, given] at run
    dsimp only at run
    rw [if_neg (by simp [download]), if_neg (by simp [download]), if_pos download] at run
    obtain ⟨file, kept, early, late, loads, device, rfl⟩ := (runs_seq _ _ _ _ _).mp run
    obtain ⟨spare, _, _, found, _⟩ := (dfuLoadFile_spec short).returns loads (supplies_append.mp supplied).1
    rw [(prepareDevice_options device).2]
    exact ⟨spare, found⟩
  · rw [passed, passed_range, representable_iff sized, mode]
    exact representable _

end Preparing

section Session

variable {traits : Traits} {arrives : Nat → Bool} {remote : Remote} {contents firmware image : List UInt8} {options : Options}
  {session : Session} {held : QdaBuf} {codes : Nat → Prop}

/-- Firmware that a device may have in the end: what it had, or the image of the file, whole. -/
def Untorn (options : Options) (contents old new : List UInt8) : Prop := new = old ∨ ∃ spare file,
  examined (DfuFile.zero options.fileName) .maybe .maybe contents spare = .ok file ∧ new = Dfu.image file

def Remote.Untorn (options : Options) (contents old : List UInt8) (remote : Remote) : Prop :=
  Device.Untorn options contents old remote.world.target.firmware

theorem Remote.Secure.untorn (secure : remote.Secure firmware image) (untorn : Device.Untorn options contents firmware image) :
    remote.Untorn options contents firmware := by
  obtain old | new := secure.installed
  · exact .inl old
  · rw [Remote.Untorn, new]
    exact untorn

theorem transfer_blockless (failures : ∀ code, code ≠ 0 → codes code) (mode : session.options.mode ≠ .download) :
    Static.Performs (Within codes (Asking Request.Blockless)) (transfer session) := by
  have upload (len transaction : UInt16) : Asking Request.Blockless (uploadRequest len transaction) :=
    @message_asking _ (.upload len transaction) trivial (by simp [Request.Blockless])
  have fails {α : Type} {code : Nat} (failure : code ≠ 0) :
      Static.Performs (Within codes (Asking Request.Blockless)) (Host.exit code : Host.Code α) := performs_exit (failures code failure)
  unfold transfer
  split
  · refine .bind (.perform trivial) fun fd => ?_
    split
    · exact fails (by decide)
    split
    · exact fails (by decide)
    refine .bind (dfuloadDoUpload_within failures (upload _) _ _) fun ret => ?_
    split
    · exact fails (by decide)
    · exact .perform trivial
  next asked => exact absurd asked mode
  · exact .bind (detach_performs trivial) fun _ => .pure _
  · exact fails (by decide)

theorem transferDownload_safe (fits : Fits session.file session.xferSize) (fresh : Fresh firmware remote.world.target) :
    Safe (outOfReach traits arrives) (Remote.Secure firmware (Dfu.image session.file)) (transferDownload session)
      (fun _ _ after => after.Secure firmware (Dfu.image session.file)) held remote := by
  have secure : remote.Secure firmware (Dfu.image session.file) := fresh.secure
  rw [transferDownload]
  split
  · exact exit_safe secure secure
  · exact exit_safe secure secure
  next xferSize decided =>
    obtain rfl := decision_xferSize decided
    apply (dfuloadDoDnload_safe fits fresh.receiving).bind
    intro rc kept after secure
    split
    · exact exit_safe secure secure
    · exact .pure secure secure

theorem transfer_safe (short : contents.length < 2 ^ 31) (grounded : Grounded options contents session)
    (fresh : Fresh firmware remote.world.target) :
    Safe (outOfReach traits arrives) (Remote.Untorn options contents firmware) (transfer session)
      (fun _ _ after => ∃ image, Untorn options contents firmware image ∧ after.Secure firmware image) held remote := by
  obtain ⟨rfl, found, range⟩ := grounded
  by_cases download : session.options.mode = .download
  · obtain ⟨spare, found⟩ := found download
    have untorn : Untorn session.options contents firmware (Dfu.image session.file) := .inr ⟨spare, session.file, found, rfl⟩
    rw [transfer, download]
    dsimp only
    have safe := @transferDownload_safe traits arrives remote firmware session held (examined_fits short found range) fresh
    apply (safe.weaken fun _ secure => secure.untorn untorn).imp
    exact fun _ _ after secure => ⟨_, untorn, secure⟩
  · have blockless := @transfer_blockless session (fun _ => True) (fun _ _ => trivial) download
    have safe := @asking_safe traits arrives remote (Remote.Untorn session.options contents firmware) held _ _ (Fresh firmware) _ _
      blockless (fun _ _ => Fresh.serve) (fun _ fresh => .inl fresh.same) fresh
    exact safe.imp fun _ _ after fresh => ⟨firmware, .inl rfl, fresh.secure⟩

theorem finish_safe (untorn : Untorn options contents firmware image) (secure : remote.Secure firmware image) :
    Safe (outOfReach traits arrives) (Remote.Untorn options contents firmware) (finish session)
      (fun _ _ after => after.Untorn options contents firmware) held remote := by
  have blockless : Static.Performs (Within (fun _ => True) (Asking Request.Blockless)) (finish session) :=
    finish_within (fun _ _ => trivial) (@message_asking _ .reset trivial (by simp [Request.Blockless])) session
  apply (asking_safe blockless (fun _ _ => Secure.serve) (fun _ secure => Remote.Secure.untorn secure untorn) secure).imp
  exact fun _ _ after secure => Remote.Secure.untorn secure untorn

/-- Over a transport that nothing can be expected of, a device that had no part of an image has, at every moment of every
execution, the firmware it had or the image of the file. -/
theorem firmware_never_torn {traits : Traits} (arrives : Nat → Bool) {pageSize : Option Int} {root : QdaIf} {argv : List Opt}
    {options : Options} {target : Target} {contents : List UInt8} (given : readOptions argv = some options)
    (representable : ∀ wTransferSize, Representable pageSize options.transferSize wTransferSize root.bMaxPacketSize0)
    (short : contents.length < 2 ^ 31) (clear : target.stage.Clear) (qdaBuf : QdaBuf) {now : History Calls}
    {rest : Program Calls (Int × QdaBuf)} (run : Runs ((main pageSize root argv).run qdaBuf) now rest)
    (permitted : Permitted ((outOfReach traits arrives).permits (Remote.start target contents)) [] now) :
    Untorn options contents target.firmware
      ((outOfReach traits arrives).after (Remote.start target contents) now).world.target.firmware := by
  have fresh : Fresh target.firmware (Remote.start target contents).world.target := ⟨rfl, clear⟩
  have blockless : Static.Performs (Within (fun _ => True) (Asking Request.Blockless)) (prepare pageSize root argv) :=
    (prepare_within (fun _ _ => trivial) fun _ _ _ => trivial).mono (Within.mono fun _ => inquiry_blockless)
  have prepared := @asking_safe traits arrives _ (Remote.Untorn options contents target.firmware) qdaBuf _ _ (Fresh target.firmware) _ _
    blockless (fun _ _ => Fresh.serve) (fun _ fresh => .inl fresh.same) fresh
  have safe : Safe (outOfReach traits arrives) (Remote.Untorn options contents target.firmware) (main pageSize root argv)
      (fun _ _ after => after.Untorn options contents target.firmware) qdaBuf (Remote.start target contents) := by
    rw [main]
    apply (prepared.sharpen fun session held part allowed run =>
      prepare_grounded given short representable (permitted_reads allowed) run).bind
    intro session held after done
    obtain ⟨fresh, grounded⟩ := done
    apply (transfer_safe short grounded fresh).bind
    intro _ held after done
    obtain ⟨image, untorn, secure⟩ := done
    exact finish_safe untorn secure
  exact safe.safe run permitted

end Session

section Example

variable {traits : Traits} {remote : Remote} {now : History Calls}

/-- The replies that there have been are to messages that have arrived. -/
def Remote.Told (remote : Remote) : Prop := remote.heard = true ∨ remote.world.reply = .stall

theorem next_attached {event : Event Calls} (told : remote.Told) (allowed : remote.world.Allows event) : remote.Allows event ∧
    (remote.next traits (fun _ => true) event).world = remote.world.next traits event ∧
      (remote.next traits (fun _ => true) event).Told := by
  obtain ⟨op, answer⟩ := event
  cases op with
  | send data => exact ⟨trivial, rfl, .inl rfl⟩
  | receive qdaBuf =>
    refine ⟨fun acknowledged => ?_, rfl, told⟩
    obtain heard | stalled := told
    · exact heard
    · have fits : remote.world.reply.Fits := by
        rw [stalled]
        trivial
      have shown := (reply_received fits allowed).1
      rw [stalled] at shown
      have typed : answer.2.type = qdaPktStall := shown
      exact absurd (typed.symm.trans acknowledged) (by decide)
  | serialDetach | serialIoOpen | openNew | write => exact ⟨trivial, rfl, told⟩
  | _ => exact ⟨allowed, rfl, told⟩

theorem attached_reached (told : remote.Told) (permitted : Permitted ((attached traits).permits remote.world) [] now) :
    Permitted ((outOfReach traits fun _ => true).permits remote) [] now ∧
      ((outOfReach traits fun _ => true).after remote now).world = (attached traits).after remote.world now ∧
      ((outOfReach traits fun _ => true).after remote now).Told := by
  induction now using List.reverseRecOn with
  | nil => exact ⟨trivial, rfl, told⟩
  | append_singleton now event ih =>
    obtain ⟨before, allowed⟩ := permitted_snoc.mp permitted
    obtain ⟨reached, there, told⟩ := ih before
    rw [List.nil_append, Environment.permits, ← there] at allowed
    obtain ⟨fine, same, further⟩ := @next_attached traits _ event told allowed
    rw [permitted_snoc, Environment.after_append, Environment.after_append, ← there]
    exact ⟨⟨reached, fine⟩, same, further⟩

/-- One byte is downloaded to a device that was being read. -/
theorem one_byte_untorn : ∃ now held, Runs ((main none blankRoot [.download "firmware.bin"]).run QdaBuf.blank) now (.ret (0, held)) ∧
    Untorn smallOptions [0x2a] [1, 2, 3] ((outOfReach smallTraits fun _ => true).after
      (Remote.start ⟨[1, 2, 3], .uploadIdle 2 1⟩ [0x2a]) now).world.target.firmware := by
  have requested := one_byte_requested ⟨[1, 2, 3], .uploadIdle 2 1⟩ trivial
  obtain ⟨now, permitted, ⟨_, spared⟩ | ⟨rc, held, run, rfl, _⟩⟩ :=
    (main_installs requested QdaBuf.blank).occurs attached_answerable
  · exact absurd spared.reason one_byte_suits
  · have representable (wTransferSize : UInt16) :
        Representable none smallOptions.transferSize wTransferSize blankRoot.bMaxPacketSize0 := by
      have word := wTransferSize.toNat_lt
      change wTransferSize.toNat ≤ 65535
      omega
    obtain ⟨permitted, _⟩ := @attached_reached _ (Remote.start ⟨[1, 2, 3], .uploadIdle 2 1⟩ [0x2a]) _ (.inr rfl) permitted
    have clear : (Target.mk [1, 2, 3] (.uploadIdle 2 1)).stage.Clear := trivial
    exact ⟨now, held, run,
      firmware_never_torn (fun _ => true) requested.given representable requested.short clear QdaBuf.blank run permitted⟩

end Example

end DfuUtilQda.Device

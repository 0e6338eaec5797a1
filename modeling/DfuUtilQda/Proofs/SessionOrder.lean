import DfuUtilQda.Device.Messages
import DfuUtilQda.Interaction.Monitor
import DfuUtilQda.Proofs.DeviceCalls
import DfuUtilQda.Proofs.FileCalls
import DfuUtilQda.Proofs.LoadingEnds

/-! The order of a session. `main` makes its calls in the order that the device and
the host rely on, whatever they answer: the file, the port, the device, one kind of
transfer, and the port again. Each request waits for its response, and each block for
the device's status. -/

namespace DfuUtilQda.Host
open Interaction Machine Qda Dfu

/-- How far a session has come. After a request that was taken its response is the next thing,
and before a transfer the status: it is asked for once the alternate setting is selected,
and again whenever something was done about it. -/
inductive Turn where
  | loading | refused | opened | attached | described | selected | settling | sent | dnloading | uploading | detached | resetting | closed
  | awaiting (onward : Turn)
  deriving DecidableEq

namespace Turn

/-- The requests that may be made, and how far the session has come with them. -/
def asks (turn : Turn) (request : Device.Request) : Option Turn :=
  match turn with
  | attached => match request with
    | .dfuDesc => some described
    | _ => none
  | described => match request with
    | .setAltSetting _ => some selected
    | _ => none
  | selected => match request with
    | .getStatus => some settling
    | _ => none
  | settling => match request with
    | .getState | .abort => some selected
    | .dnload _ _ => some sent
    | .upload _ _ => some uploading
    | .reset => some resetting
    | _ => none
  | sent => match request with
    | .getStatus => some dnloading
    | .reset => some resetting
    | _ => none
  | dnloading => match request with
    | .dnload _ _ => some sent
    | .getStatus => some dnloading
    | .reset => some resetting
    | _ => none
  | uploading => match request with
    | .upload _ _ => some uploading
    | .reset => some resetting
    | _ => none
  | detached => match request with
    | .reset => some resetting
    | _ => none
  | _ => none

/-- What is sent is a request in its turn, and nothing behind it. -/
def may (turn : Turn) : Op → Prop
  | .send data => ∃ request : Device.Request,
      request.Fits ∧ data = request.message ∧ data.length ≤ qdaBufSize ∧ turn.asks request ≠ none
  | .receive _ => ∃ onward, turn = awaiting onward
  | .openRead _ | .seekEnd _ | .seekStart _ | .read _ _ | .fread _ | .realloc _ | .report _ | .serialIoOpen _ _ => turn = loading
  | .malloc _ => turn = loading ∨ turn = settling
  | .close _ => turn = loading ∨ turn = uploading
  | .serialDetach => turn = opened ∨ turn = settling
  | .milliSleep _ => turn = settling ∨ turn = dnloading
  | .openNew _ => turn = settling
  | .write _ _ => turn = uploading
  | .serialIoClose => turn = settling ∨ turn = sent ∨ turn = dnloading ∨ turn = uploading ∨ turn = detached ∨ turn = resetting
  | .openTruncated _ => False
  | .exit _ | .fault => turn ≠ closed ∧ ∀ onward, turn ≠ awaiting onward

/-- Where an event takes the session; a request that was not taken has no response. -/
def next (turn : Turn) (event : Event Calls) : Turn :=
  match event with
  | ⟨.send data, rc⟩ => match turn.asks (Device.Request.decode data) with
    | some onward => if rc < 0 then onward else awaiting onward
    | none => turn
  | ⟨.receive _, _⟩ => match turn with
    | awaiting onward => onward
    | _ => turn
  | ⟨.serialIoOpen _ _, ret⟩ => if ret < 0 then refused else opened
  | ⟨.serialDetach, _⟩ => if turn = opened then attached else detached
  | ⟨.serialIoClose, _⟩ => closed
  | _ => turn

end Turn

def order : Monitor Calls Turn := ⟨Turn.may, Turn.next⟩

section Requests

variable {turn onward : Turn} {held : QdaBuf} {α : Type} {post : α → QdaBuf → Turn → Prop}

theorem exit_follows {code : Nat} (live : turn ≠ .closed ∧ ∀ onward, turn ≠ .awaiting onward) :
    Follows order (Host.exit code : Host.Code α) post held turn := .perform_seq live fun _ => .halt

theorem fault_follows (live : turn ≠ .closed ∧ ∀ onward, turn ≠ .awaiting onward) :
    Follows order (fault : Host.Code α) post held turn :=
  (wp_call _ _).mpr ⟨trivial, fun _ => wp_halt.mpr ⟨live, trivial⟩⟩

theorem send_turn {request : Device.Request} (fits : request.Fits) (small : request.message.length ≤ qdaBufSize)
    (asks : turn.asks request = some onward) (rc : Int) : order.may turn (.send request.message) ∧
      order.next turn ⟨.send request.message, rc⟩ = if rc < 0 then onward else .awaiting onward := by
  have decoded := request.decode_alone fits
  refine ⟨⟨request, fits, rfl, small, by simp [asks]⟩, ?_⟩
  simp only [order, Turn.next, decoded, asks]

theorem ask_follows {request : Device.Request} {expected : UInt32} (fits : request.Fits) (small : request.message.length ≤ qdaBufSize)
    (asks : turn.asks request = some onward) :
    Follows order (ask qdaConf request.message expected) (fun _ _ after => after = onward) held turn := by
  rw [Follows, ask_tree _ _ _ small]
  apply (wp_call _ _).mpr
  refine ⟨trivial, fun rc => ?_⟩
  obtain ⟨may, moved⟩ := send_turn fits small asks rc
  by_cases refused : rc < 0
  · rw [if_pos refused]
    rw [if_pos refused] at moved
    exact (wp_ret _).mpr ⟨⟨may, trivial⟩, moved⟩
  · rw [if_neg refused]
    rw [if_neg refused] at moved
    apply (wp_call _ _).mpr
    refine ⟨⟨may, trivial⟩, fun answer => (wp_ret _).mpr ⟨⟨may, ?_, trivial⟩, ?_⟩⟩
    · rw [moved]
      exact ⟨onward, rfl⟩
    · rw [List.nil_append, List.singleton_append, Monitor.after, List.foldl_cons, moved]
      rfl

theorem getDfuDesc_follows (dif : QdaIf) :
    Follows order (qdaGetDfuDesc qdaConf dif) (fun _ _ after => after = .described) held .attached := by
  rw [qdaGetDfuDesc, ask_type]
  apply (@ask_follows _ _ _ .dfuDesc _ trivial (by simp [Device.Request.message, qdaBufSize]) rfl).bind
  intro ok held after there
  split
  · exact Follows.get_seq (.pure there)
  · exact .pure there

theorem setAltSetting_follows (alt : UInt8) :
    Follows order (qdaSetAltSetting qdaConf alt) (fun _ _ after => after = .selected) held .described := by
  rw [qdaSetAltSetting, ask_alt]
  apply (@ask_follows _ _ _ (.setAltSetting alt) _ trivial (by simp [Device.Request.message, qdaBufSize]) rfl).bind
  intro ok held after there
  split <;> exact .pure there

theorem getStatus_follows (asks : turn.asks .getStatus = some onward) :
    Follows order (dfuGetStatus qdaConf) (fun _ _ after => after = onward) held turn := by
  rw [dfuGetStatus, qdaDfuGetstatus, ask_type]
  apply (@ask_follows _ _ _ .getStatus _ trivial (by simp [Device.Request.message, qdaBufSize]) asks).bind
  intro ok held after there
  split
  · exact Follows.get_seq (.pure there)
  · exact .pure there

theorem abort_follows : Follows order (dfuAbort qdaConf) (fun _ _ after => after = .selected) held .settling := by
  rw [dfuAbort, qdaDfuAbort, simpleRequest, ask_type]
  apply (@ask_follows _ _ _ .abort _ trivial (by simp [Device.Request.message, qdaBufSize]) rfl).bind
  intro ok held after there
  split <;> exact .pure there

theorem clearStatus_follows : Follows order (dfuClearStatus qdaConf) (fun _ _ after => after = .selected) held .settling := by
  rw [dfuClearStatus, qdaDfuGetstate, ask_type]
  apply (@ask_follows _ _ _ .getState _ trivial (by simp [Device.Request.message, qdaBufSize]) rfl).bind
  intro ok held after there
  split
  · exact Follows.get_seq (.pure there)
  · exact .pure there

/-- A block that is too long for QDA is refused without a request. -/
theorem download_follows {len transaction : UInt16} {data : Pointer} (turn_ : turn = .settling ∨ turn = .dnloading) :
    Follows order (dfuDownload qdaConf len transaction data)
      (fun rc _ after => after = .sent ∨ after = turn ∧ rc < 0) held turn := by
  rw [dfuDownload, qdaDfuDownload_eq]
  split
  next => exact Follows.modify_seq (.pure (.inr ⟨rfl, by decide⟩))
  next room =>
    cases loaded : data.load len.toNat with
    | none =>
      apply fault_follows
      obtain rfl | rfl := turn_ <;> simp
    | some bytes =>
      have count := Pointer.load_length loaded
      have asks : turn.asks (.dnload transaction bytes) = some .sent := by
        obtain rfl | rfl := turn_ <;> rfl
      dsimp only
      rw [← Device.dnload_message count]
      apply (ask_follows (Device.dnload_fits count) (Device.dnload_short count (Nat.not_lt.mp room)) asks).bind
      intro ok held after there
      split <;> exact .pure (.inl there)

theorem upload_follows {len transaction : UInt16} {data : List UInt8} (asks : turn.asks (.upload len transaction) = some .uploading) :
    Follows order (dfuUpload qdaConf len transaction data) (fun _ _ after => after = .uploading) held turn := by
  rw [dfuUpload, qdaDfuUpload, ask_block]
  apply (@ask_follows _ _ _ (.upload len transaction) _ trivial (by simp [Device.Request.message, qdaBufSize]) asks).andThen
  intro ok held
  split
  · apply Follows.get_seq
    dsimp only
    split
    · exact .pure rfl
    · split
      · exact fault_follows (by simp)
      · split
        · exact fault_follows (by simp)
        · exact .pure rfl
  · exact .pure rfl

theorem reset_follows (asks : turn.asks .reset = some .resetting) :
    Follows order (qdaReset qdaConf) (fun _ _ after => after = .resetting) held turn := by
  have front : (held.store32 0 qdaPktReset).bytes.take 4 = Device.Request.message .reset := by
    rw [store_type]
    exact QdaBuf.take_store held (packet qdaPktReset []) (by simp [qdaBufSize])
  have turns := @send_turn _ _ .reset trivial (by simp [Device.Request.message, qdaBufSize]) asks
  rw [qdaReset]
  apply Follows.modify_seq
  apply Follows.get_seq
  rw [front]
  apply Follows.perform_seq (S := Calls) (turns 0).1
  intro rc
  have moved := (turns rc).2
  rw [moved]
  by_cases refused : rc < 0
  · rw [if_pos refused, if_pos refused]
    exact .pure rfl
  · rw [if_neg refused, if_neg refused]
    apply Follows.perform_seq (S := Calls) (⟨_, rfl⟩ : order.may (.awaiting .resetting) (.receive _))
    intro answer
    apply Follows.set_seq
    split
    · exact .pure rfl
    · split <;> exact .pure rfl

theorem detach_follows (turn_ : turn = .opened ∨ turn = .settling) :
    Follows order (qdaDfuDetach qdaConf) (fun _ _ after => after = if turn = .opened then .attached else .detached) held turn := by
  apply Follows.perform_seq (S := Calls) (turn_ : order.may turn .serialDetach)
  intro rc
  split <;> exact .pure rfl

theorem milliSleep_follows {ms : UInt32} {β : Type} {rest : Unit → Host.Code β} {final : β → QdaBuf → Turn → Prop}
    (turn_ : turn = .settling ∨ turn = .dnloading) (more : Follows order (rest ()) final held turn) :
    Follows order (milliSleep ms >>= rest) final held turn := by
  unfold milliSleep
  split
  · exact Follows.perform_seq (S := Calls) (turn_ : order.may turn (.milliSleep _)) fun _ => more
  · rw [pure_bind]
    exact more

end Requests

section Loading

/-- What may be done at this point of the session without any progress. -/
def Stays (turn : Turn) (op : Op) : Prop := order.may turn op ∧ ∀ answer, order.next turn ⟨op, answer⟩ = turn

theorem Stays.exit {turn : Turn} {code : Nat} (live : turn ≠ .closed ∧ ∀ onward, turn ≠ .awaiting onward) :
    Stays turn (.exit code) :=
  ⟨live, fun _ => rfl⟩

theorem loading_live : Turn.loading ≠ .closed ∧ ∀ onward, Turn.loading ≠ .awaiting onward := by simp

theorem loading_exit {α : Type} (code : Nat) : Static.Performs (Stays .loading) (Host.exit code : Host.Code α) :=
  performs_exit (.exit loading_live)

theorem malloc_performs {turn : Turn} (turn_ : turn = .loading ∨ turn = .settling) (size : Int) :
    Static.Performs (Stays turn) (dfuMalloc size) := by
  have live : turn ≠ .closed ∧ ∀ onward, turn ≠ .awaiting onward := by
    obtain rfl | rfl := turn_ <;> simp
  rw [dfuMalloc]
  refine .bind (.perform ⟨turn_, fun _ => rfl⟩) fun found => ?_
  split
  · exact .pure _
  · exact performs_exit (.exit live)

theorem stdinRound_performs (state : DfuFile × Int) : Static.Performs (Stays .loading) (stdinRound state) := by
  rw [stdinRound]
  split
  · refine .bind (.perform ⟨rfl, fun _ => rfl⟩) fun fresh => ?_
    split
    · exact loading_exit _
    refine .bind (.perform ⟨rfl, fun _ => rfl⟩) fun chunk => ?_
    split
    · intro held
      exact ⟨⟨loading_live, fun _ => rfl⟩, fun _ => trivial⟩
    · exact .pure _
  · exact .pure _

theorem readStdin_performs (file : DfuFile) : Static.Performs (Stays .loading) (readStdin file) := by
  rw [readStdin]
  refine .bind (malloc_performs (.inl rfl) _) fun block => ?_
  refine .bind (.perform ⟨rfl, fun _ => rfl⟩) fun chunk => ?_
  exact .loop stdinRound_performs

theorem readNamed_performs (file : DfuFile) : Static.Performs (Stays .loading) (readNamed file) := by
  rw [readNamed]
  refine .bind (.perform ⟨rfl, fun _ => rfl⟩) fun f => ?_
  split
  · exact loading_exit _
  refine .bind (.perform ⟨rfl, fun _ => rfl⟩) fun offset => ?_
  split
  · exact loading_exit _
  refine .bind (.perform ⟨rfl, fun _ => rfl⟩) fun start => ?_
  split
  · exact loading_exit _
  refine .bind (malloc_performs (.inl rfl) _) fun firmware => ?_
  refine .bind (.perform ⟨rfl, fun _ => rfl⟩) fun bytes => ?_
  split
  · exact loading_exit _
  split
  · exact loading_exit _
  · exact .bind (.perform ⟨.inl rfl, fun _ => rfl⟩) fun _ => .pure _

theorem dfuLoadFile_follows {verbose : Nat} {file : DfuFile} {checkSuffix : SuffixReq} {checkPrefix : PrefixReq} {held : QdaBuf} :
    Follows order (dfuLoadFile verbose file checkSuffix checkPrefix) (fun _ _ after => after = .loading) held .loading := by
  have checked (file : DfuFile) (needed : SuffixReq) : Static.Performs (Stays .loading) (checkFile verbose file needed checkPrefix) :=
    checkFile_performs (fun _ _ => .exit loading_live) (fun _ => ⟨rfl, fun _ => rfl⟩)
  apply Follows.of_performs
  rw [dfuLoadFile]
  split
  · exact .bind (readStdin_performs _) fun file => checked file .maybe
  · exact .bind (readNamed_performs _) fun file => checked file checkSuffix

end Loading

section Session

variable {held : QdaBuf}

/-- However a transfer comes to its end, the session can be finished. -/
def Finishing (turn : Turn) : Prop := turn = .settling ∨ turn = .sent ∨ turn = .dnloading ∨ turn = .uploading ∨ turn = .detached

theorem Finishing.live {turn : Turn} (finishing : Finishing turn) : turn ≠ .closed ∧ ∀ onward, turn ≠ .awaiting onward := by
  obtain rfl | rfl | rfl | rfl | rfl := finishing <;> simp

theorem openDevice_follows (options : Options) (root : QdaIf) :
    Follows order (openDevice options root) (fun _ _ after => after = .described) held .loading := by
  rw [openDevice]
  apply Follows.perform_seq (S := Calls) (rfl : order.may .loading (.serialIoOpen _ _))
  intro ret
  have opens : order.next .loading ⟨.serialIoOpen options.serialDevicePath (toInt options.transferSpeed.toNat), ret⟩ =
      if ret < 0 then .refused else .opened := rfl
  rw [opens]
  split
  · exact exit_follows (by simp)
  apply (detach_follows (.inl rfl)).andThen
  intro rc held
  split
  · exact exit_follows (by simp)
  apply (getDfuDesc_follows _).andThen
  intro found held
  split
  · exact exit_follows (by simp)
  · exact .pure rfl

theorem statusRound_follows : Follows order (statusRound ()) (fun outcome _ after => match outcome with
    | .inl _ => after = .selected
    | .inr _ => after = .settling) held .selected := by
  have settling := Finishing.live (.inl rfl)
  rw [statusRound]
  apply (getStatus_follows rfl).andThen
  intro found held
  split
  · exact exit_follows settling
  apply milliSleep_follows (.inl rfl)
  split
  · exact exit_follows settling
  split
  · apply clearStatus_follows.andThen
    intro rc held
    split
    · exact exit_follows (by simp)
    · exact .pure rfl
  split
  · apply abort_follows.andThen
    intro rc held
    split
    · exact exit_follows (by simp)
    · exact .pure rfl
  · exact .pure rfl

theorem settleStatus_follows : Follows order settleStatus (fun _ _ after => after = .settling) held .selected := by
  have settling := Finishing.live (.inl rfl)
  rw [settleStatus]
  apply @Follows.bind _ _ _ _ _ _ (fun _ _ after => after = .settling)
  · apply Follows.loop (fun _ _ turn => turn = .selected) rfl
    intro round held turn there
    rw [there]
    apply statusRound_follows.imp
    intro outcome held after there
    obtain next | status := outcome <;> exact there
  rintro status held after rfl
  rw [retryStatus]
  split
  · apply clearStatus_follows.andThen
    intro rc held
    split
    · exact exit_follows (by simp)
    apply (getStatus_follows rfl).andThen
    intro found held
    split
    · exact exit_follows settling
    split
    · exact exit_follows settling
    · have slept (ms : UInt32) : Follows order (milliSleep ms >>= pure) (fun _ _ after => after = .settling) held .settling :=
        milliSleep_follows (.inl rfl) (.pure rfl)
      rw [← bind_pure (milliSleep _)]
      exact slept _
  · exact .pure rfl

theorem prepareDevice_follows (pageSize : Option Int) (options : Options) (file : DfuFile) (root : QdaIf) :
    Follows order (prepareDevice pageSize options file root) (fun _ _ after => after = .settling) held .loading := by
  rw [prepareDevice]
  apply (openDevice_follows options root).andThen
  intro root held
  apply (setAltSetting_follows _).andThen
  intro rc held
  split
  · exact exit_follows (by simp)
  apply settleStatus_follows.andThen
  intro _ held
  split
  · exact exit_follows (Finishing.live (.inl rfl))
  · exact .pure rfl

theorem prepare_follows (pageSize : Option Int) (root : QdaIf) (argv : List Opt) :
    Follows order (prepare pageSize root argv) (fun _ _ after => after = .settling) held .loading := by
  rw [prepare]
  split
  · exact exit_follows loading_live
  split
  · exact exit_follows loading_live
  split
  · exact exit_follows loading_live
  dsimp only
  split
  · apply dfuLoadFile_follows.andThen
    intro file held
    exact prepareDevice_follows pageSize _ file root
  · exact prepareDevice_follows pageSize _ _ root

theorem Finishing.resets {turn : Turn} (finishing : Finishing turn) : turn.asks .reset = some .resetting := by
  obtain rfl | rfl | rfl | rfl | rfl := finishing <;> rfl

theorem pollStatus_follows : Follows order pollStatus (fun _ _ after => after = .dnloading) held .sent := by
  rw [pollStatus]
  apply Follows.loop (fun _ _ turn => turn = .sent ∨ turn = .dnloading) (.inl rfl)
  intro _ held turn turn_
  have asks : turn.asks .getStatus = some .dnloading := by
    obtain rfl | rfl := turn_ <;> rfl
  apply (getStatus_follows asks).andThen
  intro found held
  split
  · exact exit_follows (by simp)
  split
  · exact .pure rfl
  · exact milliSleep_follows (.inr rfl) (.pure (.inr rfl))

theorem awaitManifest_follows : Follows order awaitManifest (fun _ _ after => after = .dnloading) held .sent := by
  rw [awaitManifest]
  apply Follows.loop (fun _ _ turn => turn = .sent ∨ turn = .dnloading) (.inl rfl)
  intro _ held turn turn_
  have asks : turn.asks .getStatus = some .dnloading := by
    obtain rfl | rfl := turn_ <;> rfl
  apply (getStatus_follows asks).andThen
  intro found held
  split
  · exact .pure rfl
  apply milliSleep_follows (.inr rfl)
  split
  · exact milliSleep_follows (.inr rfl) (.pure (.inr rfl))
  · exact .pure rfl

theorem dnloadRound_follows {file : DfuFile} {xferSize : Int} {s : Progress} {turn : Turn}
    (turn_ : turn = .settling ∨ turn = .dnloading) : Follows order (dnloadRound file xferSize s) (fun outcome _ after => match outcome with
      | .inl _ => after = .dnloading
      | .inr (complete, _) => if complete then after = turn else Finishing after) held turn := by
  rw [dnloadRound]
  split
  · apply (download_follows turn_).bind
    intro ret held after outcome
    split
    next refused =>
      refine .pure ?_
      obtain rfl | ⟨rfl, _⟩ := outcome
      · exact .inr (.inl rfl)
      · obtain rfl | rfl := turn_
        · exact .inl rfl
        · exact .inr (.inr (.inl rfl))
    next taken =>
      obtain rfl | ⟨_, refused⟩ := outcome
      · apply pollStatus_follows.andThen
        intro dst held
        split
        · exact .pure (.inr (.inr (.inl rfl)))
        · exact .pure rfl
      · exact absurd refused taken
  · exact .pure rfl

theorem dfuloadDoDnload_follows {file : DfuFile} {xferSize : Int} :
    Follows order (dfuloadDoDnload xferSize file) (fun _ _ after => Finishing after) held .settling := by
  rw [dfuloadDoDnload]
  apply @Follows.bind _ _ _ _ _ _ (fun result _ after => if result.1 then after = .settling ∨ after = .dnloading else Finishing after)
  · apply Follows.loop (fun _ _ turn => turn = .settling ∨ turn = .dnloading) (.inl rfl)
    intro s held turn turn_
    apply (dnloadRound_follows turn_).imp
    intro outcome held after there
    obtain next | ⟨complete, s⟩ := outcome
    · exact .inr there
    · cases complete with
      | true => exact there ▸ turn_
      | false => exact there
  · intro result held after there
    obtain ⟨complete, s⟩ := result
    cases complete with
    | true =>
      apply (download_follows there).bind
      intro ret held after outcome
      split
      next refused =>
        apply exit_follows
        obtain rfl | ⟨rfl, _⟩ := outcome
        · simp
        · obtain rfl | rfl := there <;> simp
      next taken =>
        obtain rfl | ⟨_, refused⟩ := outcome
        · apply awaitManifest_follows.andThen
          intro _ held
          exact .pure (.inr (.inr (.inl rfl)))
        · exact absurd refused taken
    | false => exact .pure there

theorem fileWrite_follows {fd : Int} {crc : UInt32} {data : List UInt8} :
    Follows order (dfuFileWriteCrc fd crc data) (fun _ _ after => after = .uploading) held .uploading := by
  rw [dfuFileWriteCrc]
  apply Follows.perform_seq (S := Calls) (rfl : order.may .uploading (.write fd data))
  intro written
  split
  · exact exit_follows (by simp [order, Turn.next])
  · exact .pure rfl

theorem uploadRound_follows {xferSize fd : Int} {s : Upload} {turn : Turn} (turn_ : turn = .settling ∨ turn = .uploading) :
    Follows order (uploadRoundWith (dfuUpload qdaConf) xferSize fd s) (fun _ _ after => after = .uploading) held turn := by
  have asks (len transaction : UInt16) : turn.asks (.upload len transaction) = some .uploading := by
    obtain rfl | rfl := turn_ <;> rfl
  rw [uploadRoundWith]
  apply (upload_follows (asks _ _)).andThen
  intro answer held
  obtain ⟨rc, buf⟩ := answer
  dsimp only
  split
  · exact .pure rfl
  apply fileWrite_follows.andThen
  intro _ held
  split
  · exact exit_follows (by simp)
  split <;> exact .pure rfl

theorem dfuloadDoUpload_follows {xferSize expectedSize fd : Int} :
    Follows order (dfuloadDoUpload xferSize expectedSize fd) (fun _ _ after => after = .uploading) held .settling := by
  rw [dfuloadDoUpload, dfuloadDoUploadWith]
  apply (Follows.of_performs (malloc_performs (.inr rfl) xferSize)).andThen
  intro buf held
  apply @Follows.bind _ _ _ _ _ _ (fun _ _ after => after = .uploading)
  · apply Follows.loop (fun _ _ turn => turn = .settling ∨ turn = .uploading) (.inl rfl)
    intro s held turn turn_
    apply (uploadRound_follows turn_).imp
    intro outcome held after there
    obtain next | result := outcome
    · exact .inr there
    · exact there
  · rintro result held after rfl
    obtain ⟨totalBytes, ret⟩ := result
    dsimp only
    split
    · exact exit_follows (by simp)
    · exact .pure rfl

theorem transferUpload_follows (session : Session) :
    Follows order (transferUpload session) (fun _ _ after => Finishing after) held .settling := by
  have settling := Finishing.live (.inl rfl)
  rw [transferUpload]
  apply Follows.perform_seq (S := Calls) (rfl : order.may .settling (.openNew session.file.name))
  intro fd
  split
  · exact exit_follows settling
  split
  · exact exit_follows settling
  apply dfuloadDoUpload_follows.andThen
  intro ret held
  split
  · exact exit_follows (by simp)
  · exact .perform (.inr rfl) fun _ => .inr (.inr (.inr (.inl rfl)))

theorem transferDownload_follows (session : Session) :
    Follows order (transferDownload session) (fun _ _ after => Finishing after) held .settling := by
  have settling := Finishing.live (.inl rfl)
  rw [transferDownload]
  split
  · exact exit_follows settling
  · exact exit_follows settling
  · apply dfuloadDoDnload_follows.bind
    intro ret held after finishing
    split
    · exact exit_follows (finishing.live)
    · exact .pure finishing

theorem transfer_follows (session : Session) : Follows order (transfer session) (fun _ _ after => Finishing after) held .settling := by
  rw [transfer]
  split
  · exact transferUpload_follows session
  · exact transferDownload_follows session
  · apply (detach_follows (.inr rfl)).andThen
    intro rc held
    exact .pure (.inr (.inr (.inr (.inr rfl))))
  · exact exit_follows (Finishing.live (.inl rfl))

theorem finish_follows (session : Session) {turn : Turn} (finishing : Finishing turn) :
    Follows order (finish session) (fun rc _ after => rc = 0 ∧ after = .closed) held turn := by
  rw [finish]
  split
  · apply (reset_follows finishing.resets).andThen
    intro ret held
    split
    · exact exit_follows (by simp)
    · exact Follows.perform_seq (S := Calls) (.inr (.inr (.inr (.inr (.inr rfl)))) : order.may .resetting .serialIoClose)
        fun _ => .pure ⟨rfl, rfl⟩
  · have may : order.may turn .serialIoClose := by
      obtain rfl | rfl | rfl | rfl | rfl := finishing <;> simp [order, Turn.may]
    exact Follows.perform_seq may fun _ => .pure ⟨rfl, rfl⟩

theorem main_follows (pageSize : Option Int) (root : QdaIf) (argv : List Opt) (qdaBuf : QdaBuf) :
    Follows order (main pageSize root argv) (fun rc _ after => rc = 0 ∧ after = .closed) qdaBuf .loading := by
  rw [main]
  apply (prepare_follows pageSize root argv).andThen
  intro session held
  apply (transfer_follows session).bind
  intro _ held after finishing
  exact finish_follows session finishing

theorem answerable (op : Op) : Nonempty (Answer op) := by
  obtain ⟨answer, _⟩ := supplied_answerable [] op
  exact ⟨answer⟩

/-- The program makes its calls in order, whatever they answer. It returns with 0, and with the port closed. -/
theorem main_in_order (pageSize : Option Int) (root : QdaIf) (argv : List Opt) (qdaBuf : QdaBuf) :
    wp (order.Accepts .loading) ((main pageSize root argv).run qdaBuf)
      (fun result now => result.1 = 0 ∧ order.after .loading now = .closed) [] := main_follows pageSize root argv qdaBuf

end Session

end DfuUtilQda.Host

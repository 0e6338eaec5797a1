import DfuUtilQda.Interaction.Budget
import DfuUtilQda.Proofs.LoadingEnds
import DfuUtilQda.Proofs.Operations

/-! The whole program on a budget. Whenever it goes round a loop it has been taken a
request from, or has read a whole chunk of a file. It ends once neither happens any more. -/

namespace DfuUtilQda.Dfu
open Interaction Machine Qda Host

/-- The events that may keep the program going: a request the transport took, and a whole chunk from standard input. -/
def intake : Event Calls → Nat
  | ⟨.send _, rc⟩ => if rc < 0 then 0 else 1
  | ⟨.fread size, chunk⟩ => if chunk.val.length = size then 1 else 0
  | _ => 0

variable {budget before : Nat} {α β : Type}

/-- The code ends, and has then called `exit` or broken a rule of C if it has not returned. -/
abbrev Comes (budget : Nat) (code : Host.Code α) (post : α → Nat → Prop) (before : Nat) : Prop :=
  Affords intake budget Stopped code post before

section Parts

variable {post : α → Nat → Prop}

theorem comes_exit (code : Nat) : Comes budget (Host.exit code : Host.Code α) post before :=
  fun _ _ _ _ => exit_ends code

theorem comes_fault : Comes budget (fault : Host.Code α) post before := fun _ _ _ _ => fault_ends

theorem comes_seq {op : Op} {rest : Answer op → Host.Code β} {final : β → Nat → Prop} (free : ∀ answer, intake ⟨op, answer⟩ = 0)
    (more : ∀ answer, Comes budget (rest answer) final before) : Comes budget (perform op >>= rest) final before := by
  apply Affords.perform_seq
  intro answer _
  rw [free answer]
  exact more answer

theorem comes_perform {op : Op} {final : Answer op → Nat → Prop} (free : ∀ answer, intake ⟨op, answer⟩ = 0)
    (done : ∀ answer, final answer before) : Comes budget (perform op) final before := by
  apply Affords.perform
  intro answer _
  rw [free answer]
  exact done answer

theorem comes_milliSleep {ms : UInt32} {rest : Unit → Host.Code β} {final : β → Nat → Prop}
    (more : Comes budget (rest ()) final before) : Comes budget (milliSleep ms >>= rest) final before := by
  unfold milliSleep
  split
  · exact comes_seq (fun _ => rfl) fun _ => more
  · rw [pure_bind]
    exact more

theorem comes_ask {request : List UInt8} {expected : UInt32} (fits : request.length ≤ qdaBufSize) :
    Comes budget (ask qdaConf request expected) (fun ok after => ok = true → before < after) before := by
  rintro within now held rfl
  rw [ask_tree _ _ _ fits]
  apply Ends.call
  intro rc sent
  rw [Affordable, spent_append, spent_singleton] at sent
  by_cases refused : rc < 0
  · rw [if_pos refused]
    apply Ends.ret
    rw [spent_append, spent_singleton]
    exact ⟨by simp, Nat.le_add_right _ _, sent⟩
  · have taken : intake ⟨.send request, rc⟩ = 1 := if_neg refused
    rw [if_neg refused]
    rw [taken] at sent
    apply Ends.call
    intro answer received
    apply Ends.ret
    simp only [spent_append, spent_singleton, taken]
    have free : intake ⟨.receive (held.store 0 request), answer⟩ = 0 := rfl
    rw [free]
    exact ⟨fun _ => Nat.lt_succ_self _, Nat.le_succ _, sent⟩

end Parts

section Device

theorem comes_request {request : List UInt8} {expected : UInt32} {rest : Bool → Host.Code α} {good : α → Prop}
    (fits : request.length ≤ qdaBufSize) (accepted : ∀ after, Comes budget (rest true) (fun _ _ => True) after)
    (refused : ∀ after, Comes budget (rest false) (fun value _ => ¬good value) after) :
    Comes budget (ask qdaConf request expected >>= rest) (fun value after => good value → before < after) before := by
  apply (comes_ask fits).bind
  intro ok after _ taken
  cases ok with
  | true =>
    have more := taken rfl
    apply (accepted after).imp
    intro _ last grown _ _ _
    omega
  | false =>
    apply (refused after).imp
    intro _ _ _ _ bad good
    exact absurd good bad

theorem comes_reading {rest : QdaBuf → Host.Code α} {final : α → Nat → Prop}
    (more : ∀ held, Comes budget (rest held) final before) : Comes budget (do rest (← get)) final before := by
  intro within now held same
  exact more held within now held same

theorem comes_getStatus : Comes budget (dfuGetStatus qdaConf) (fun dst after => dst ≠ none → before < after) before := by
  rw [dfuGetStatus, qdaDfuGetstatus, ask_type]
  apply comes_request (by simp [qdaBufSize])
  · exact fun _ => comes_reading fun _ => .pure trivial
  · exact fun _ => .pure (by simp)

theorem comes_abort : Comes budget (dfuAbort qdaConf) (fun rc after => ¬rc < 0 → before < after) before := by
  rw [dfuAbort, qdaDfuAbort, simpleRequest, ask_type]
  apply comes_request (by simp [qdaBufSize])
  · exact fun _ => .pure trivial
  · exact fun _ => .pure (by simp)

theorem comes_clearStatus : Comes budget (dfuClearStatus qdaConf) (fun rc after => ¬rc < 0 → before < after) before := by
  rw [dfuClearStatus, qdaDfuGetstate, ask_type]
  apply comes_request (by simp [qdaBufSize])
  · exact fun _ => comes_reading fun _ => .pure trivial
  · exact fun _ => .pure (by simp)

theorem comes_setAltSetting (alt : UInt8) : Comes budget (qdaSetAltSetting qdaConf alt) (fun rc after => ¬rc < 0 → before < after) before := by
  rw [qdaSetAltSetting, ask_alt]
  apply comes_request (by simp [qdaBufSize])
  · exact fun _ => .pure trivial
  · exact fun _ => .pure (by simp)

theorem comes_getDfuDesc (dif : QdaIf) : Comes budget (qdaGetDfuDesc qdaConf dif) (fun found after => found ≠ none → before < after) before := by
  rw [qdaGetDfuDesc, ask_type]
  apply comes_request (by simp [qdaBufSize])
  · exact fun _ => comes_reading fun _ => .pure trivial
  · exact fun _ => .pure (by simp)

theorem comes_download (len transaction : UInt16) (data : Pointer) :
    Comes budget (dfuDownload qdaConf len transaction data) (fun rc after => ¬rc < 0 → before < after) before := by
  rw [dfuDownload, qdaDfuDownload_eq]
  split
  · exact .quiet fun held => ⟨-1, _, rfl, by simp⟩
  next room =>
    cases loaded : data.load len.toNat with
    | none => exact fun _ _ _ _ => fault_ends
    | some bytes =>
      have count := Pointer.load_length loaded
      apply comes_request
      · simp only [packet_length, blockPayload_length, qdaBufSize] at room ⊢
        omega
      · exact fun _ => .pure trivial
      · exact fun _ => .pure (by simp)

theorem comes_upload (len transaction : UInt16) (data : List UInt8) :
    Comes budget (dfuUpload qdaConf len transaction data) (fun result after => ¬result.1 < 0 → before < after) before := by
  rw [dfuUpload, qdaDfuUpload, ask_block]
  apply comes_request (by simp [qdaBufSize])
  · intro after
    apply comes_reading
    intro held
    dsimp only
    split
    · exact .pure trivial
    · split
      · exact comes_fault
      · split
        · exact comes_fault
        · exact .pure trivial
  · exact fun _ => .pure (by simp)

theorem comes_reset : Comes budget (qdaReset qdaConf) (fun _ _ => True) before := by
  rw [qdaReset]
  apply Affords.andThen (.quiet fun held => ⟨(), _, rfl, trivial⟩)
  intro _ after
  apply comes_reading
  intro held
  change Comes budget (Static.perform (S := Calls) (.send (held.bytes.take 4)) >>= _) _ _
  apply Affords.perform_seq
  intro rc _
  split
  · exact .pure trivial
  change Comes budget (Static.perform (S := Calls) (.receive held) >>= _) _ _
  apply Affords.perform_seq
  intro answer _
  apply Affords.andThen (.quiet fun held => ⟨_, _, rfl, trivial⟩)
  intro _ last
  split
  · exact .pure trivial
  · split <;> exact .pure trivial

end Device

section Files

theorem comes_malloc (size : Int) : Comes budget (dfuMalloc size) (fun _ after => after = before) before := by
  rw [dfuMalloc]
  apply comes_seq fun _ => rfl
  intro answer
  cases answer with
  | none => exact comes_exit _
  | some block => exact .pure rfl

theorem comes_write (fd : Int) (crc : UInt32) (data : List UInt8) : Comes budget (dfuFileWriteCrc fd crc data) (fun _ _ => True) before := by
  rw [dfuFileWriteCrc]
  apply comes_seq fun _ => rfl
  intro written
  split
  · exact comes_exit _
  · exact .pure trivial

theorem comes_readNamed (file : DfuFile) : Comes budget (readNamed file) (fun _ _ => True) before := by
  rw [readNamed]
  apply comes_seq fun _ => rfl
  intro f
  split
  · exact comes_exit _
  apply comes_seq fun _ => rfl
  intro offset
  split
  · exact comes_exit _
  apply comes_seq fun _ => rfl
  intro start
  split
  · exact comes_exit _
  apply (comes_malloc _).bind
  intro firmware after _ _
  apply comes_seq fun _ => rfl
  intro answer
  split
  · exact comes_exit _
  · split
    · exact comes_exit _
    · exact comes_seq (fun _ => rfl) fun _ => .pure trivial

/-- A chunk that is not a whole one is the last. -/
theorem comes_stdinRound (state : DfuFile × Int) : Comes budget (stdinRound state) (fun outcome after => match outcome with
    | .inl next => state.2 = stdinChunkSize ∧ (next.2 = stdinChunkSize → before < after)
    | .inr _ => True) before := by
  simp only [stdinRound]
  split
  next whole =>
    apply comes_seq fun _ => rfl
    intro answer
    split
    · exact comes_exit _
    apply Affords.perform_seq
    intro chunk _
    split
    · exact comes_fault
    · apply Affords.pure
      refine ⟨whole, fun again => ?_⟩
      have full : chunk.val.length = stdinChunkSize := Int.natCast_inj.mp again
      have one : intake ⟨.fread stdinChunkSize, chunk⟩ = 1 := if_pos full
      omega
  next => exact .pure trivial

theorem comes_readStdin (file : DfuFile) : Comes budget (readStdin file) (fun _ _ => True) before := by
  rw [readStdin]
  apply (comes_malloc _).bind
  intro block after _ _
  apply Affords.perform_seq
  intro chunk _
  -- After the last whole chunk there is still one round to go.
  apply Affords.loop (fun _ _ => True)
    (fun (state : DfuFile × Int) spent => 2 * (budget - spent) + if state.2 = stdinChunkSize then 1 else 0) trivial
  intro state spent _
  apply (comes_stdinRound state).imp
  intro outcome later grown within result
  obtain next | file := outcome
  · obtain ⟨whole, more⟩ := result
    refine ⟨trivial, ?_⟩
    rw [if_pos whole]
    split
    next again =>
      have paid := more again
      omega
    next => omega
  · trivial

theorem comes_checkFile (verbose : Nat) (file : DfuFile) (checkSuffix : SuffixReq) (checkPrefix : PrefixReq) :
    Comes budget (checkFile verbose file checkSuffix checkPrefix) (fun _ _ => True) before := by
  unfold checkFile
  split
  · exact comes_exit _
  split
  · exact comes_exit _
  split
  · exact comes_exit _
  dsimp only
  split
  · exact comes_exit _
  split
  · exact comes_exit _
  split
  · unfold reportPrefix
    apply Affords.andThen
    · split
      · exact comes_perform (fun _ => rfl) fun _ => trivial
      · exact comes_perform (fun _ => rfl) fun _ => trivial
      · exact comes_exit _
    · exact fun _ _ => .pure trivial
  · exact .pure trivial

theorem comes_dfuLoadFile (verbose : Nat) (file : DfuFile) (checkSuffix : SuffixReq) (checkPrefix : PrefixReq) :
    Comes budget (dfuLoadFile verbose file checkSuffix checkPrefix) (fun _ _ => True) before := by
  unfold dfuLoadFile
  split
  · exact (comes_readStdin _).bind fun _ _ _ _ => comes_checkFile _ _ _ _
  · exact (comes_readNamed _).bind fun _ _ _ _ => comes_checkFile _ _ _ _

end Files

section Transfers

theorem comes_uploadRound (xferSize fd : Int) (s : Upload) : Comes budget (uploadRoundWith (dfuUpload qdaConf) xferSize fd s)
    (fun outcome after => ∀ next, outcome = .inl next → before < after) before := by
  unfold uploadRoundWith
  apply (comes_upload _ _ _).bind
  intro result after _ taken
  dsimp only
  split
  · exact .pure (by simp)
  next fine =>
    have paid := taken fine
    apply (comes_write _ _ _).bind
    intro _ later grown _
    split
    · exact comes_exit _
    split
    · exact .pure (by simp)
    · apply Affords.pure
      intro next _
      omega

theorem comes_loop {σ : Type} {body : σ → Host.Code (σ ⊕ β)} {state : σ}
    (paid : ∀ state before, Comes budget (body state) (fun outcome after => ∀ next, outcome = .inl next → before < after) before) :
    Comes budget (Static.loop body state) (fun _ _ => True) before := by
  apply Affords.loop (fun _ _ => True) (fun _ spent => budget - spent) trivial
  intro state spent _
  apply (paid state spent).imp
  intro outcome later grown within result
  obtain next | value := outcome
  · have less := result next rfl
    exact ⟨trivial, by omega⟩
  · trivial

theorem comes_dfuloadDoUpload (xferSize expectedSize fd : Int) :
    Comes budget (dfuloadDoUpload xferSize expectedSize fd) (fun _ _ => True) before := by
  rw [dfuloadDoUpload, dfuloadDoUploadWith]
  apply (comes_malloc _).bind
  intro buf after _ _
  apply (comes_loop fun s _ => comes_uploadRound xferSize fd s).bind
  intro result later _ _
  dsimp only
  split
  · exact comes_exit _
  · exact .pure trivial

theorem comes_pollStatus : Comes budget pollStatus (fun _ _ => True) before := by
  apply comes_loop
  intro _ before
  apply comes_getStatus.bind
  intro reported after _ taken
  split
  · exact comes_exit _
  next dst =>
    have paid := taken (by simp)
    split
    · exact .pure (by simp)
    · exact comes_milliSleep (.pure fun _ _ => paid)

theorem comes_awaitManifest : Comes budget awaitManifest (fun _ _ => True) before := by
  apply comes_loop
  intro _ before
  apply comes_getStatus.bind
  intro reported after _ taken
  split
  · exact .pure (by simp)
  next dst =>
    have paid := taken (by simp)
    apply comes_milliSleep
    split
    · exact comes_milliSleep (.pure fun _ _ => paid)
    · exact .pure (by simp)

theorem comes_dnloadRound (file : DfuFile) (xferSize : Int) (s : Progress) : Comes budget (dnloadRound file xferSize s)
    (fun outcome after => ∀ next, outcome = .inl next → before < after) before := by
  unfold dnloadRound
  split
  · apply (comes_download _ _ _).bind
    intro ret after _ taken
    dsimp only
    split
    · exact .pure (by simp)
    next fine =>
      have paid := taken fine
      apply comes_pollStatus.bind
      intro dst later grown _
      split
      · exact .pure (by simp)
      · apply Affords.pure
        intro next _
        omega
  · exact .pure (by simp)

theorem comes_dfuloadDoDnload (xferSize : Int) (file : DfuFile) :
    Comes budget (dfuloadDoDnload xferSize file) (fun _ _ => True) before := by
  rw [dfuloadDoDnload]
  apply (comes_loop fun s _ => comes_dnloadRound file xferSize s).bind
  intro result after _ _
  dsimp only
  split
  · apply (comes_download _ _ _).bind
    intro ret later _ _
    split
    · exact comes_exit _
    · exact comes_awaitManifest.bind fun _ _ _ _ => .pure trivial
  · exact .pure trivial

end Transfers

section Program

theorem comes_detach : Comes budget (qdaDfuDetach qdaConf) (fun _ _ => True) before := by
  rw [qdaDfuDetach]
  change Comes budget (Static.perform (S := Calls) .serialDetach >>= _) _ _
  apply Affords.perform_seq
  intro rc _
  split <;> exact .pure trivial

theorem comes_openDevice (options : Options) (root : QdaIf) : Comes budget (openDevice options root) (fun _ _ => True) before := by
  unfold openDevice
  dsimp only
  apply comes_seq fun _ => rfl
  intro ret
  split
  · exact comes_exit _
  apply comes_detach.bind
  intro rc after _ _
  split
  · exact comes_exit _
  apply (comes_getDfuDesc _).bind
  intro found later _ _
  split
  · exact comes_exit _
  · exact .pure trivial

theorem comes_statusRound (start : Unit) : Comes budget (statusRound start)
    (fun outcome after => ∀ next, outcome = .inl next → before < after) before := by
  unfold statusRound
  apply comes_getStatus.bind
  intro reported after _ taken
  split
  · exact comes_exit _
  next dst =>
    have paid := taken (by simp)
    apply comes_milliSleep
    split
    · exact comes_exit _
    split
    · apply comes_clearStatus.bind
      intro rc later grown _
      split
      · exact comes_exit _
      · apply Affords.pure
        intro next _
        omega
    split
    · apply comes_abort.bind
      intro rc later grown _
      split
      · exact comes_exit _
      · apply Affords.pure
        intro next _
        omega
    · exact .pure (by simp)

theorem comes_settleStatus : Comes budget settleStatus (fun _ _ => True) before := by
  unfold settleStatus
  apply (comes_loop fun start _ => comes_statusRound start).bind
  intro dst after _ _
  unfold retryStatus
  split
  · apply comes_clearStatus.bind
    intro rc later _ _
    split
    · exact comes_exit _
    apply comes_getStatus.bind
    intro reported last _ _
    split
    · exact comes_exit _
    split
    · exact comes_exit _
    · rw [← bind_pure (milliSleep _)]
      exact comes_milliSleep (.pure trivial)
  · exact .pure trivial

theorem comes_prepareDevice (pageSize : Option Int) (options : Options) (file : DfuFile) (root : QdaIf) :
    Comes budget (prepareDevice pageSize options file root) (fun _ _ => True) before := by
  unfold prepareDevice
  apply (comes_openDevice _ _).bind
  intro root after _ _
  apply (comes_setAltSetting _).bind
  intro rc later _ _
  split
  · exact comes_exit _
  apply comes_settleStatus.bind
  intro _ last _ _
  split
  · exact comes_exit _
  · exact .pure trivial

theorem comes_prepare (pageSize : Option Int) (root : QdaIf) (argv : List Opt) :
    Comes budget (prepare pageSize root argv) (fun _ _ => True) before := by
  unfold prepare
  split
  · exact comes_exit _
  split
  · exact comes_exit _
  split
  · exact comes_exit _
  dsimp only
  split
  · exact (comes_dfuLoadFile _ _ _ _).bind fun _ _ _ _ => comes_prepareDevice _ _ _ _
  · exact comes_prepareDevice _ _ _ _

theorem comes_transfer (session : Session) : Comes budget (transfer session) (fun _ _ => True) before := by
  unfold transfer
  split
  · unfold transferUpload
    apply comes_seq fun _ => rfl
    intro fd
    split
    · exact comes_exit _
    split
    · exact comes_exit _
    apply (comes_dfuloadDoUpload _ _ _).bind
    intro ret after _ _
    split
    · exact comes_exit _
    · exact comes_perform (fun _ => rfl) fun _ => trivial
  · unfold transferDownload
    split
    · exact comes_exit _
    · exact comes_exit _
    apply (comes_dfuloadDoDnload _ _).bind
    intro ret after _ _
    split
    · exact comes_exit _
    · exact .pure trivial
  · exact comes_detach.bind fun _ _ _ _ => .pure trivial
  · exact comes_exit _

theorem comes_finish (session : Session) : Comes budget (finish session) (fun _ _ => True) before := by
  unfold finish
  split
  · apply comes_reset.bind
    intro ret after _ _
    split
    · exact comes_exit _
    · exact comes_seq (fun _ => rfl) fun _ => .pure trivial
  · exact comes_seq (fun _ => rfl) fun _ => .pure trivial

theorem comes_main (pageSize : Option Int) (root : QdaIf) (argv : List Opt) :
    Comes budget (main pageSize root argv) (fun _ _ => True) before := by
  unfold main
  apply (comes_prepare _ _ _).bind
  intro session after _ _
  apply (comes_transfer _).bind
  intro _ later _ _
  exact comes_finish _

end Program

end DfuUtilQda.Dfu

import DfuUtilQda.Proofs.Operations
import DfuUtilQda.Proofs.SessionRuns

/-! The status of the device before a transfer: what the program has seen of it when
it sends the first block, and how it answers an error. -/

namespace DfuUtilQda.Dfu
open Interaction Machine Qda Host

/-- Every request was a fine one. -/
def Asked (fine : List UInt8 → Prop) (exchanges : List Exchange) : Prop := ∀ exchange ∈ exchanges, fine exchange.request

section Asked

variable {codes : Nat → Prop} {fine : List UInt8 → Prop} {exchanges : List Exchange}

theorem Asked.mono {wider : List UInt8 → Prop} (asked : Asked fine exchanges) (implies : ∀ request, fine request → wider request) :
    Asked wider exchanges := fun exchange member => implies _ (asked exchange member)

theorem Asked.snoc {request : List UInt8} {response : Option QdaBuf} (asked : Asked fine exchanges) (known : fine request) :
    Asked fine (exchanges ++ [⟨request, response⟩]) := by
  intro exchange member
  rcases List.mem_append.mp member with earlier | last
  · exact asked exchange earlier
  · cases List.mem_singleton.mp last
    exact known

theorem Asked.answerLast (asked : Asked fine exchanges) (after : QdaBuf) : Asked fine (answerLast after exchanges) := by
  rcases List.eq_nil_or_concat exchanges with rfl | ⟨front, last, rfl⟩
  · exact asked
  · rw [List.concat_eq_append] at asked ⊢
    rw [answerLast_snoc]
    exact Asked.snoc (fun exchange member => asked exchange (List.mem_append_left _ member))
      (asked last (List.mem_append_right _ List.mem_cons_self))

theorem Asked.follow {event : Event Calls} (asked : Asked fine exchanges) (within : Within codes fine event.op) :
    Asked fine (follow exchanges event) := by
  obtain ⟨op, answer⟩ := event
  cases op with
  | send data => exact asked.snoc within
  | receive qdaBuf => exact asked.answerLast _
  | _ => exact asked

theorem asked_of_performs {α : Type} {program rest : Program Calls α} {now : History Calls} (run : Runs program now rest)
    (performs : program.Performs (Within codes fine)) : Asked fine (dialogue now) := by
  have kept : wp (fun now => Asked fine (dialogue now)) program (fun _ now => Asked fine (dialogue now)) [] := by
    refine performs.wp (fun now event within asked => ?_) (by simp [dialogue, Asked])
    rw [dialogue_snoc]
    exact asked.follow within
  exact kept.safe run

end Asked

/-- A request that begins or goes on with a transfer. -/
def Transfers (request : List UInt8) : Prop :=
  (Exchange.mk request none).type = qdaPktDfuDnloadReq ∨ (Exchange.mk request none).type = qdaPktDfuUploadReq

theorem Inquiry.no_transfer {request : List UInt8} (inquiry : Inquiry request) : ¬Transfers request := by
  cases inquiry <;> simp only [Transfers, dfuDescRequest, setAltRequest, getstatusRequest, getstateRequest, abortRequest,
    type_packet] <;> decide

def Reported (exchange : Exchange) (dst : DfuStatus) : Prop := exchange.request = getstatusRequest ∧ exchange.report = some dst

/-- What has been seen of a device when its status is settled: a state that ended the loop and no error, or no error
after one more exchange and one more report, whose state is not looked at. -/
def Ready (exchanges : List Exchange) : Prop :=
  (∃ front last dst, exchanges = front ++ [last] ∧ Reported last dst ∧ Passes dst.bState ∧ dst.bStatus = dfuStatusOk) ∨
  ∃ front last dst cleared again settled, exchanges = front ++ [last, cleared, again] ∧
    Reported last dst ∧ Passes dst.bState ∧ dst.bStatus ≠ dfuStatusOk ∧ Reported again settled ∧ settled.bStatus = dfuStatusOk

/-- What a round of the status loop adds to the dialogue. -/
inductive Looked (before : List Exchange) : Unit ⊕ DfuStatus → List Exchange → Prop where
  | cleared {dst : DfuStatus} {response answer : Option QdaBuf} (reported : Reported ⟨getstatusRequest, response⟩ dst)
      (error : dst.bState = stateDfuError) :
      Looked before (.inl ()) (before ++ [⟨getstatusRequest, response⟩] ++ [⟨getstateRequest, answer⟩])
  | aborted {dst : DfuStatus} {response answer : Option QdaBuf} (reported : Reported ⟨getstatusRequest, response⟩ dst)
      (idle : dst.bState = stateDfuDnloadIdle ∨ dst.bState = stateDfuUploadIdle) :
      Looked before (.inl ()) (before ++ [⟨getstatusRequest, response⟩] ++ [⟨abortRequest, answer⟩])
  | passed {dst : DfuStatus} {response : Option QdaBuf} (reported : Reported ⟨getstatusRequest, response⟩ dst)
      (passes : Passes dst.bState) : Looked before (.inr dst) (before ++ [⟨getstatusRequest, response⟩])

/-- What the second chance adds to it. -/
inductive Retried (before : List Exchange) (dst : DfuStatus) : List Exchange → Prop where
  | fine (good : dst.bStatus = dfuStatusOk) : Retried before dst before
  | again {settled : DfuStatus} {answer response : Option QdaBuf} (bad : dst.bStatus ≠ dfuStatusOk)
      (reported : Reported ⟨getstatusRequest, response⟩ settled) (good : settled.bStatus = dfuStatusOk) :
      Retried before dst (before ++ [⟨getstateRequest, answer⟩] ++ [⟨getstatusRequest, response⟩])

section Settling

variable {safe : List Exchange → Prop} {codes : Nat → Prop} {now : History Calls} {qdaBuf : QdaBuf}
  (kept : Kept safe codes now) (failures : ∀ code, code ≠ 0 → codes code)
  (remains : ∀ exchanges request response, safe exchanges → Inquiry request → safe (exchanges ++ [⟨request, response⟩]))
include kept failures remains

theorem statusRound_spec (start : Unit) : wp (Kept safe codes) ((statusRound start).run qdaBuf) (fun outcome later =>
    Kept safe codes later ∧ Looked (dialogue now) outcome.1 (dialogue later)) now := by
  rw [statusRound, StateT.run_bind, wp_seq]
  refine kept.getStatus (fun response => remains _ _ _ kept.dialogue .getstatus) fun response held later kept same => ?_
  simp only
  split
  next => exact kept.exit (failures _ (by decide))
  next dst reported =>
    rw [StateT.run_bind, wp_seq]
    refine kept.milliSleep fun later kept still => ?_
    rw [same] at still
    split
    next => exact kept.exit (failures _ (by decide))
    next app =>
      split
      next error =>
        rw [StateT.run_bind, wp_seq]
        refine kept.clearStatus (fun response => remains _ _ _ kept.dialogue .getstate) fun answer rc held later kept told _ => ?_
        rw [still] at told
        simp only
        split
        next => exact kept.exit (failures _ (by decide))
        next =>
          refine (wp_pure _).mpr ⟨kept, kept, ?_⟩
          rw [told]
          exact .cleared ⟨rfl, reported⟩ error
      next fine =>
        split
        next idle =>
          rw [StateT.run_bind, wp_seq]
          refine kept.abort (fun response => remains _ _ _ kept.dialogue .abort) fun answer rc held later kept told _ => ?_
          rw [still] at told
          simp only
          split
          next => exact kept.exit (failures _ (by decide))
          next =>
            refine (wp_pure _).mpr ⟨kept, kept, ?_⟩
            rw [told]
            exact .aborted ⟨rfl, reported⟩ idle
        next idle =>
          refine (wp_pure _).mpr ⟨kept, kept, ?_⟩
          rw [still]
          exact .passed ⟨rfl, reported⟩ ⟨app, fine, idle⟩

theorem retryStatus_spec (dst : DfuStatus) : wp (Kept safe codes) ((retryStatus dst).run qdaBuf) (fun _ later =>
    Retried (dialogue now) dst (dialogue later)) now := by
  unfold retryStatus
  split
  next bad =>
    rw [StateT.run_bind, wp_seq]
    refine kept.clearStatus (fun response => remains _ _ _ kept.dialogue .getstate) fun answer rc held later kept cleared _ => ?_
    simp only
    split
    next => exact kept.exit (failures _ (by decide))
    next =>
      rw [StateT.run_bind, wp_seq]
      refine kept.getStatus (fun response => remains _ _ _ kept.dialogue .getstatus) fun response held later kept again => ?_
      simp only
      split
      next => exact kept.exit (failures _ (by decide))
      next settled found =>
        split
        next => exact kept.exit (failures _ (by decide))
        next good =>
          refine kept.milliSleep fun later kept still => ?_
          rw [still, again, cleared]
          exact .again bad ⟨rfl, found⟩ (not_not.mp good)
  next good => exact (wp_pure _).mpr ⟨kept, .fine (not_not.mp good)⟩

/-- The rounds keep an invariant of the dialogue, and after the last of them there may be a second chance. -/
theorem settleStatus_rule (invariant : List Exchange → Prop) (start : invariant (dialogue now))
    (step : ∀ before after, invariant before → Looked before (.inl ()) after → invariant after) :
    wp (Kept safe codes) (settleStatus.run qdaBuf) (fun _ later => ∃ before front dst,
      invariant before ∧ Looked before (.inr dst) front ∧ Retried front dst (dialogue later)) now := by
  have looped : wp (Kept safe codes) ((Static.loop statusRound ()).run qdaBuf) (fun result later => Kept safe codes later ∧
      ∃ before, invariant before ∧ Looked before (.inr result.1) (dialogue later)) now := by
    apply wp.static_loop (fun _ _ now => Kept safe codes now ∧ invariant (dialogue now)) ⟨kept, start⟩
    intro again held now head
    obtain ⟨kept, holds⟩ := head
    refine (statusRound_spec kept failures remains again).imp ?_
    intro outcome later _ ends
    obtain ⟨kept, looked⟩ := ends
    obtain ⟨again | dst, held⟩ := outcome
    · exact ⟨kept, step _ _ holds looked⟩
    · exact ⟨kept, _, holds, looked⟩
  rw [settleStatus, StateT.run_bind, wp_seq]
  refine looped.imp ?_
  intro result later _ ends
  obtain ⟨kept, before, holds, looked⟩ := ends
  refine (retryStatus_spec kept failures remains result.1).imp ?_
  intro _ final _ retried
  exact ⟨before, _, _, holds, looked, retried⟩

theorem settleStatus_spec : wp (Kept safe codes) (settleStatus.run qdaBuf) (fun _ later => Ready (dialogue later)) now := by
  refine (settleStatus_rule kept failures remains (fun _ => True) trivial fun _ _ _ _ => trivial).imp ?_
  intro _ later _ ends
  obtain ⟨before, front, dst, _, looked, retried⟩ := ends
  cases looked with
  | passed reported passes =>
    generalize same : dialogue later = exchanges at retried ⊢
    cases retried with
    | fine good => exact .inl ⟨_, _, dst, rfl, reported, passes, good⟩
    | @again settled answer response bad told good =>
      refine .inr ⟨before, _, dst, ⟨getstateRequest, answer⟩, _, settled, ?_, reported, passes, bad, told, good⟩
      rw [List.append_assoc, List.append_assoc]
      rfl

end Settling

section Main

variable {codes : Nat → Prop} {fine : List UInt8 → Prop} {now : History Calls} {qdaBuf : QdaBuf} {α β : Type}

theorem Kept.within {event : Event Calls} (kept : Kept (Asked fine) codes now) (within : Within codes fine event.op) :
    Kept (Asked fine) codes (now ++ [event]) := by
  refine kept.snoc ?_ fun code same => ?_
  · rw [dialogue_snoc]
    exact kept.dialogue.follow within
  · rw [same] at within
    exact within

theorem Kept.performs {code : Host.Code α} (kept : Kept (Asked fine) codes now)
    (performs : Static.Performs (Within codes fine) code) :
    wp (Kept (Asked fine) codes) (code.run qdaBuf) (fun _ later => Kept (Asked fine) codes later) now :=
  (performs qdaBuf).wp (fun _ _ within kept => Kept.within kept within) kept

theorem prepare_rule {pageSize : Option Int} {root : QdaIf} {argv : List Opt} {post : Session × QdaBuf → History Calls → Prop}
    (device : ∀ options file held now, readOptions argv = some options → Kept (Asked fine) (fun _ => True) now →
      wp (Kept (Asked fine) fun _ => True) ((prepareDevice pageSize options file root).run held) post now) :
    wp (Kept (Asked fine) fun _ => True) ((prepare pageSize root argv).run qdaBuf) post [] := by
  have any (code : Nat) (_ : code ≠ 0) : True := trivial
  have start : Kept (Asked fine) (fun _ => True) [] := ⟨by simp [dialogue, Asked], by simp⟩
  unfold prepare
  split
  · exact start.exit trivial
  next options read =>
    split
    · exact start.exit trivial
    split
    · exact start.exit trivial
    dsimp only
    split
    · rw [StateT.run_bind, wp_seq]
      refine (Kept.performs start ((dfuLoadFile_local _ _ _ _).mono (Local.within any))).imp ?_
      intro result later _ kept
      exact device options _ _ later read kept
    · exact device options _ _ [] read start

theorem prepare_spec (pageSize : Option Int) (root : QdaIf) (argv : List Opt) :
    wp (Kept (Asked Inquiry) fun _ => True) ((prepare pageSize root argv).run qdaBuf) (fun _ later => Ready (dialogue later)) [] := by
  have any (code : Nat) (_ : code ≠ 0) : True := trivial
  apply prepare_rule
  intro options file held now _ kept
  rw [prepareDevice, StateT.run_bind, wp_seq]
  refine (Kept.performs kept (openDevice_within any .dfuDesc _ _)).imp fun _ later _ kept => ?_
  rw [StateT.run_bind, wp_seq]
  refine (Kept.performs kept (setAltSetting_within (.setAlt _))).imp fun _ later _ kept => ?_
  split
  · exact kept.exit trivial
  rw [StateT.run_bind, wp_seq]
  refine (settleStatus_spec kept any fun _ _ _ asked inquiry => asked.snoc inquiry).imp fun _ later kept ready => ?_
  split
  · exact kept.exit trivial
  · exact (wp_pure _).mpr ⟨kept, ready⟩

/-- The device has been found ready, and nothing has been transferred yet. -/
structure Poised (now : History Calls) : Prop where
  asked : Asked Inquiry (dialogue now)
  ready : Ready (dialogue now)

/-- The transfer that has begun began with a device found ready. -/
def Started (exchanges : List Exchange) : Prop :=
  ∃ before exchange after, exchanges = before ++ exchange :: after ∧ Transfers exchange.request ∧
    Asked (fun request => ¬Transfers request) before ∧ Ready before

/-- No transfer has begun yet, or one that began as it should. -/
def Guarded (now : History Calls) : Prop :=
  Asked (fun request => ¬Transfers request) (dialogue now) ∨ Started (dialogue now)

theorem Poised.guarded (poised : Poised now) : Guarded now := Or.inl (poised.asked.mono fun _ => Inquiry.no_transfer)

theorem Poised.aside {event : Event Calls} (poised : Poised now) (aside : Aside event.op) : Poised (now ++ [event]) := by
  have same := dialogue_aside now aside
  exact ⟨same ▸ poised.asked, same ▸ poised.ready⟩

theorem Poised.starts {later : History Calls} {request : List UInt8} {response : Option QdaBuf} (poised : Poised now)
    (transfers : Transfers request) (same : dialogue later = dialogue now ++ [⟨request, response⟩]) : Started (dialogue later) :=
  ⟨dialogue now, ⟨request, response⟩, [], same, transfers, poised.asked.mono fun _ => Inquiry.no_transfer, poised.ready⟩

theorem Started.snoc (event : Event Calls) (started : Started (dialogue now)) : Started (dialogue (now ++ [event])) := by
  obtain ⟨before, exchange, after, split, transfers, asked, ready⟩ := started
  rw [dialogue_snoc, split]
  obtain ⟨op, answer⟩ := event
  cases op with
  | send data => exact ⟨before, exchange, after ++ [⟨data, none⟩], by simp [follow], transfers, asked, ready⟩
  | receive held =>
    rcases List.eq_nil_or_concat after with rfl | ⟨front, last, rfl⟩
    · exact ⟨before, { exchange with response := some answer.2 }, [], answerLast_snoc _ _ _, transfers, asked, ready⟩
    · refine ⟨before, exchange, front ++ [{ last with response := some answer.2 }], ?_, transfers, asked, ready⟩
      rw [List.concat_eq_append, ← List.cons_append, ← List.append_assoc, follow, answerLast_snoc, List.append_assoc]
      rfl
  | _ => exact ⟨before, exchange, after, rfl, transfers, asked, ready⟩

theorem Started.goes {program : Program Calls α} (started : Started (dialogue now)) :
    wp Guarded program (fun _ later => Started (dialogue later)) now := by
  have stays : wp (fun later => Started (dialogue later)) program (fun _ later => Started (dialogue later)) now :=
    wp.stable (fun now event started => started.snoc event) started
  exact stays.mono (fun _ started => Or.inr started) fun _ _ _ started => started

theorem Poised.quiet {code : Host.Code α} (poised : Poised now) (performs : Static.Performs Aside code) :
    wp Guarded (code.run qdaBuf) (fun _ later => Poised later) now := by
  have stays : wp Poised (code.run qdaBuf) (fun _ later => Poised later) now :=
    (performs qdaBuf).wp (fun now event aside poised => poised.aside aside) poised
  exact stays.mono (fun _ poised => poised.guarded) fun _ _ _ poised => poised

theorem Poised.exit {code : Nat} (poised : Poised now) {post : α × QdaBuf → History Calls → Prop} :
    wp Guarded ((Host.exit code : Host.Code α).run qdaBuf) post now :=
  (wp_exit _ _ _).mpr ⟨poised.guarded, (poised.aside ⟨by simp, by simp⟩).guarded⟩

theorem Poised.ask {request : List UInt8} {expected : UInt32} (poised : Poised now) (fits : request.length ≤ qdaBufSize)
    (transfers : Transfers request) :
    wp Guarded ((ask qdaConf request expected).run qdaBuf) (fun _ later => Started (dialogue later)) now := by
  refine (wp_ask _ _ _ fits _).mpr ⟨poised.guarded, fun rc => ?_⟩
  have out := poised.starts transfers (dialogue_sent now request rc)
  refine ⟨Or.inr out, fun _ => out, fun _ received after => ?_⟩
  have back := poised.starts transfers (dialogue_answered now request rc (qdaBuf.store 0 request) received after)
  exact ⟨Or.inr back, back⟩

theorem dnload_transfers (len transaction : UInt16) (bytes : List UInt8) : Transfers (dnloadRequest len transaction bytes) :=
  Or.inl (type_packet _ _ _)

theorem upload_transfers (len transaction : UInt16) : Transfers (uploadRequest len transaction) :=
  Or.inr (type_packet _ _ _)

/-- Unless QDA does not take the block. -/
theorem Poised.download {len transaction : UInt16} {data : Pointer} (poised : Poised now) :
    wp Guarded ((dfuDownload qdaConf len transaction data).run qdaBuf)
      (fun result later => result.1 = -1 ∧ Poised later ∨ Started (dialogue later)) now := by
  rw [dfuDownload, qdaDfuDownload_eq]
  split
  · exact (wp_pure _).mpr ⟨poised.guarded, .inl ⟨rfl, poised⟩⟩
  next room =>
    split
    · exact (wp_fault _ _).mpr ⟨poised.guarded, (poised.aside ⟨by simp, by simp⟩).guarded⟩
    next bytes loaded =>
      have count := Pointer.load_length loaded
      have fits : (dnloadRequest len transaction bytes).length ≤ qdaBufSize := by
        simp only [dnloadRequest, packet_length, blockPayload_length, qdaBufSize] at room ⊢
        omega
      rw [StateT.run_bind, wp_seq]
      exact (poised.ask fits (dnload_transfers _ _ _)).imp fun _ later _ started => started.goes.imp fun _ _ _ started => .inr started

theorem Poised.dnload {xferSize : Int} {file : DfuFile} (poised : Poised now) :
    wp Guarded ((dfuloadDoDnload xferSize file).run qdaBuf) (fun _ later => Poised later ∨ Started (dialogue later)) now := by
  have finishes {γ : Type} {program : Program Calls γ} {now : History Calls} (started : Started (dialogue now)) :
      wp Guarded program (fun _ later => Poised later ∨ Started (dialogue later)) now :=
    started.goes.imp fun _ _ _ started => .inr started
  have round (s : Progress) (held : QdaBuf) (now : History Calls) (so_far : Poised now ∨ Started (dialogue now)) :
      wp Guarded ((dnloadRound file xferSize s).run held) (fun _ later => Poised later ∨ Started (dialogue later)) now := by
    rcases so_far with poised | started
    · unfold dnloadRound
      split
      · rw [StateT.run_bind, wp_seq]
        refine poised.download.imp ?_
        rintro ⟨ret, held⟩ later _ (⟨refused, poised⟩ | started)
        · dsimp only at refused ⊢
          rw [if_pos (by omega)]
          exact (wp_pure _).mpr ⟨poised.guarded, .inl poised⟩
        · exact finishes started
      · exact (wp_pure _).mpr ⟨poised.guarded, .inl poised⟩
    · exact finishes started
  have looped : wp Guarded ((Static.loop (dnloadRound file xferSize) (Progress.start file)).run qdaBuf)
      (fun _ later => Poised later ∨ Started (dialogue later)) now := by
    apply wp.static_loop (fun _ _ now => Poised now ∨ Started (dialogue now)) (.inl poised)
    intro s held now so_far
    refine (round s held now so_far).imp ?_
    rintro ⟨outcome, held⟩ later _ result
    cases outcome <;> exact result
  rw [dfuloadDoDnload, StateT.run_bind, wp_seq]
  refine looped.imp ?_
  rintro ⟨⟨complete, s⟩, held⟩ later guarded (poised | started)
  · dsimp only
    split
    · rw [StateT.run_bind, wp_seq]
      refine poised.download.imp ?_
      rintro ⟨ret, held⟩ later _ (⟨refused, poised⟩ | started)
      · dsimp only at refused ⊢
        rw [if_pos (by omega)]
        exact poised.exit
      · exact finishes started
    · exact (wp_pure _).mpr ⟨guarded, .inl poised⟩
  · exact finishes started

theorem Poised.upload {xferSize expectedSize fd : Int} (poised : Poised now) :
    wp Guarded ((dfuloadDoUpload xferSize expectedSize fd).run qdaBuf) (fun _ later => Started (dialogue later)) now := by
  have round (s : Upload) (held : QdaBuf) (now : History Calls) (so_far : Poised now ∨ Started (dialogue now)) :
      wp Guarded ((uploadRoundWith (dfuUpload qdaConf) xferSize fd s).run held) (fun _ later => Started (dialogue later)) now := by
    rcases so_far with poised | started
    · rw [uploadRoundWith, dfuUpload, qdaDfuUpload, ask_block, bind_assoc, StateT.run_bind, wp_seq]
      exact (poised.ask (by simp [uploadRequest, qdaBufSize]) (upload_transfers _ _)).imp fun _ later _ started => started.goes
    · exact started.goes
  rw [dfuloadDoUpload, dfuloadDoUploadWith, StateT.run_bind, wp_seq]
  refine (poised.quiet ((dfuMalloc_local _).mono fun _ local_ => local_.1)).imp fun block later _ poised => ?_
  rw [StateT.run_bind, wp_seq]
  have looped : wp Guarded ((Static.loop (uploadRoundWith (dfuUpload qdaConf) xferSize fd) ⟨0, 0, block.1⟩).run block.2)
      (fun _ later => Started (dialogue later)) later := by
    apply wp.static_loop (fun _ _ now => Poised now ∨ Started (dialogue now)) (.inl poised)
    intro s held now so_far
    refine (round s held now so_far).imp ?_
    rintro ⟨outcome, held⟩ later _ started
    cases outcome with
    | inl => exact Or.inr started
    | inr => exact started
  exact looped.imp fun _ _ _ started => started.goes

theorem transfer_spec {session : Session} (poised : Poised now) :
    wp Guarded ((transfer session).run qdaBuf) (fun _ later => Poised later ∨ Started (dialogue later)) now := by
  unfold transfer
  split
  · rw [transferUpload, StateT.run_bind, wp_seq]
    refine (poised.quiet (.perform ⟨by simp, by simp⟩)).imp fun fd later _ poised => ?_
    split
    · exact poised.exit
    split
    · exact poised.exit
    rw [StateT.run_bind, wp_seq]
    exact poised.upload.imp fun _ _ _ started => started.goes.imp fun _ _ _ started => .inr started
  · unfold transferDownload
    split
    · exact poised.exit
    · exact poised.exit
    rw [StateT.run_bind, wp_seq]
    refine poised.dnload.imp fun ret later guarded so_far => ?_
    rcases so_far with poised | started
    · split
      · exact poised.exit
      · exact (wp_pure _).mpr ⟨guarded, .inl poised⟩
    · exact started.goes.imp fun _ _ _ started => .inr started
  · have detaches : Static.Performs Aside (qdaDfuDetach qdaConf) := detach_performs ⟨by simp, by simp⟩
    exact (poised.quiet (.bind detaches fun _ => .pure _)).imp fun _ _ _ poised => .inl poised
  · exact poised.exit

theorem main_guarded (pageSize : Option Int) (root : QdaIf) (argv : List Opt) :
    wp Guarded ((main pageSize root argv).run qdaBuf) (fun _ _ => True) [] := by
  rw [main, StateT.run_bind, wp_seq]
  refine (prepare_spec pageSize root argv).mono (fun _ kept => .inl (kept.dialogue.mono fun _ => Inquiry.no_transfer)) ?_
  rintro ⟨session, held⟩ later kept ready
  rw [StateT.run_bind, wp_seq]
  refine (transfer_spec ⟨kept.dialogue, ready⟩).imp fun result later _ so_far => ?_
  rcases so_far with poised | started
  · have reset : ¬Transfers resetRequest := by
      simp only [Transfers, resetRequest, type_packet]
      decide
    have still : Kept (Asked fun request => ¬Transfers request) (fun _ => True) later :=
      ⟨poised.asked.mono fun _ => Inquiry.no_transfer, fun _ _ => trivial⟩
    have ends : Static.Performs (Within (fun _ => True) fun request => ¬Transfers request) (finish session) :=
      finish_within (fun _ _ => trivial) reset session
    have stays : wp (Kept (Asked fun request => ¬Transfers request) fun _ => True) ((finish session).run result.2)
        (fun _ later => Kept (Asked fun request => ¬Transfers request) (fun _ => True) later) later := Kept.performs still ends
    exact stays.mono (fun _ kept => .inl kept.dialogue) fun _ _ _ _ => trivial
  · exact started.goes.imp fun _ _ _ _ => trivial

theorem goodSession_splits (bState : UInt8) : ∃ block rest, dialogue (goodSession plain bState) =
    inquiries plain bState ++ block :: rest ∧ Transfers block.request := by
  rw [goodSession_dialogue, dialogue_singleBlock _ (oneByte_fits (by decide))]
  exact ⟨_, _, rfl, dnload_transfers _ _ _⟩

theorem inquiries_asked (bState : UInt8) : ∀ earlier ∈ inquiries plain bState, ¬Transfers earlier.request := by
  have asked : Asked Inquiry (inquiries plain bState) := by
    intro exchange member
    simp only [inquiries, List.mem_cons, List.not_mem_nil, or_false] at member
    rcases member with rfl | rfl | rfl
    · exact .dfuDesc
    · exact .setAlt _
    · exact .getstatus
  exact asked.mono fun _ => Inquiry.no_transfer

/-- The first request of a transfer is sent to a device that was found ready. -/
theorem transfer_begins_ready {pageSize : Option Int} {root : QdaIf} {argv : List Opt} {rest : Program Calls (Int × QdaBuf)}
    (run : Runs ((main pageSize root argv).run qdaBuf) now rest) {before after : List Exchange} {exchange : Exchange}
    (split : dialogue now = before ++ exchange :: after) (transfers : Transfers exchange.request)
    (first : ∀ earlier ∈ before, ¬Transfers earlier.request) : Ready before := by
  have guarded : Guarded now := (main_guarded pageSize root argv).safe run
  rcases guarded with none_ | ⟨front, other, rest, same, begins, asked, ready⟩
  · refine absurd transfers (none_ exchange ?_)
    simp [split]
  · have equal : before = front := by
      rw [split] at same
      rcases List.append_eq_append_iff.mp same with ⟨between, rfl, tail⟩ | ⟨between, rfl, tail⟩
      · cases between with
        | nil => simp
        | cons middle between =>
          cases tail
          exact absurd transfers (asked exchange (by simp))
      · cases between with
        | nil => simp
        | cons middle between =>
          cases tail
          exact absurd begins (first other (by simp))
    exact equal ▸ ready

theorem good_session_ready : Ready (inquiries plain stateDfuIdle) := by
  obtain ⟨block, rest, split, transfers⟩ := goodSession_splits stateDfuIdle
  have run : Runs ((main none ⟨0, 0, 0, 0, 0, 0, 0⟩ [.download "firmware.bin"]).run QdaBuf.blank) _ _ :=
    plain_run (show Passes stateDfuIdle by decide)
  exact transfer_begins_ready run split transfers (inquiries_asked _)

/-- A device that has yet to manifest a firmware is sent the next one. -/
theorem block_sent_to_manifesting_device : ∃ root argv now rest front last dst block after,
    Runs ((main none root argv).run QdaBuf.blank) now rest ∧ dialogue now = front ++ [last] ++ block :: after ∧
    Transfers block.request ∧ (∀ earlier ∈ front ++ [last], ¬Transfers earlier.request) ∧
    Reported last dst ∧ dst.bState = stateDfuManifestSync := by
  obtain ⟨block, rest, split, transfers⟩ := goodSession_splits stateDfuManifestSync
  have run : Runs ((main none ⟨0, 0, 0, 0, 0, 0, 0⟩ [.download "firmware.bin"]).run QdaBuf.blank) _ _ :=
    plain_run (show Passes stateDfuManifestSync by decide)
  exact ⟨_, _, _, _, [_, _], _, _, block, rest, run, split, transfers, inquiries_asked _,
    ⟨rfl, report_statusReport _ stateDfuManifestSync dfuStatusOk⟩, rfl⟩

end Main

end DfuUtilQda.Dfu

import DfuUtilQda.Proofs.StatusLoop

/-! Recovery from a device error. The status is to be cleared, but the call that
clears it asks for the state instead, and a device in its error state stays there. -/

namespace DfuUtilQda.Dfu
open Interaction Machine Qda Host

/-- A report that calls for the status to be cleared: of the error state, or of an error
with a state that ends the status loop. -/
def Alarming (exchange : Exchange) : Prop :=
  ∃ dst, Reported exchange dst ∧ (dst.bState = stateDfuError ∨ Passes dst.bState ∧ dst.bStatus ≠ dfuStatusOk)

/-- Two exchanges that follow each other before the transfer, the first of which is alarming. -/
def Followed (exchanges : List Exchange) (alarm next : Exchange) : Prop :=
  ∃ before after, exchanges = before ++ alarm :: next :: after ∧ Alarming alarm ∧
    ∀ earlier ∈ before, ¬Transfers earlier.request

/-- No response before the transfer was alarming, but the last of all. -/
def Calm (exchanges : List Exchange) : Prop :=
  ∀ before alarm after, exchanges = before ++ alarm :: after → Alarming alarm →
    (∀ earlier ∈ before, ¬Transfers earlier.request) → after = []

theorem calm_iff {exchanges : List Exchange} : Calm exchanges ↔ ∀ alarm next, ¬Followed exchanges alarm next := by
  constructor
  · intro calm alarm next followed
    obtain ⟨before, after, split, alarming, early⟩ := followed
    cases calm before alarm (next :: after) split alarming early
  · intro never before alarm after split alarming early
    cases after with
    | nil => rfl
    | cons next after => exact absurd ⟨before, after, split, alarming, early⟩ (never alarm next)

theorem Command.not_clrstatus {request : List UInt8} (command : Command request) : request ≠ clrstatusRequest := by
  have typed : (Exchange.mk request none).type ≠ qdaPktDfuClrstatus := by
    cases command with
    | inquiry inquiry => cases inquiry <;> simp only [dfuDescRequest, setAltRequest, getstatusRequest, getstateRequest,
        abortRequest, type_packet] <;> decide
    | dnload | upload | reset =>
      simp only [dnloadRequest, uploadRequest, resetRequest, type_packet]
      decide
  rintro rfl
  exact typed (type_packet _ _ _)

/-- A DFU device, as far as its status goes: what it reports, and what requests do to it. -/
structure Device (σ : Type) where
  status : σ → DfuStatus
  serve : σ → List UInt8 → σ
  respond : σ → List UInt8 → QdaBuf
  reports : ∀ s, (Exchange.mk getstatusRequest (some (respond s getstatusRequest))).report = some (status s)
  tells : ∀ s, (respond s getstateRequest).type = qdaPktDfuGetstateResp
  looks : ∀ s request, request = getstatusRequest ∨ request = getstateRequest →
    (status (serve s request)).bState = (status s).bState ∧ (status (serve s request)).bStatus = (status s).bStatus
  aborts : ∀ s, (status s).bState = stateDfuDnloadIdle ∨ (status s).bState = stateDfuUploadIdle →
    (respond s abortRequest).type = qdaPktAck ∧ (status (serve s abortRequest)).bState = stateDfuIdle ∧
      (status (serve s abortRequest)).bStatus = (status s).bStatus
  clears : ∀ s, (status s).bState = stateDfuError → (status (serve s clrstatusRequest)).bState = stateDfuIdle ∧
    (status (serve s clrstatusRequest)).bStatus = dfuStatusOk
  stays : ∀ s request, (status s).bState = stateDfuError → request ≠ clrstatusRequest →
    (status (serve s request)).bState = stateDfuError
  fine : ∀ s, (status s).bState ≠ stateDfuError → (status s).bStatus = dfuStatusOk

variable {σ : Type} (device : Device σ)

/-- A dialogue with a device that answers every request, from one state to another. -/
inductive Serves (start : σ) : List Exchange → σ → Prop where
  | start : Serves start [] start
  | serve {exchanges : List Exchange} {s : σ} (before : Serves start exchanges s) (request : List UInt8) :
      Serves start (exchanges ++ [⟨request, some (device.respond s request)⟩]) (device.serve s request)

variable {device}

theorem Serves.last {start final : σ} {exchanges : List Exchange} {request : List UInt8} {response : Option QdaBuf}
    (serves : Serves device start (exchanges ++ [⟨request, response⟩]) final) :
    ∃ s, Serves device start exchanges s ∧ response = some (device.respond s request) ∧ final = device.serve s request := by
  generalize whole : exchanges ++ [⟨request, response⟩] = all at serves
  cases serves with
  | start => simp at whole
  | serve before found =>
    obtain ⟨rfl, same⟩ := List.append_inj' whole rfl
    cases same
    exact ⟨_, before, rfl, rfl⟩

/-- The state a device is in while the program settles its status. -/
def Settling (device : Device σ) (start s : σ) : Prop :=
  if (device.status start).bState = stateDfuError then (device.status s).bState = stateDfuError
  else (device.status s).bState = stateDfuIdle ∨ (device.status s).bState = stateDfuDnloadIdle ∨
    (device.status s).bState = stateDfuUploadIdle

theorem Settling.looks {start s : σ} {request : List UInt8} (settling : Settling device start s)
    (looks : request = getstatusRequest ∨ request = getstateRequest) : Settling device start (device.serve s request) := by
  unfold Settling at settling ⊢
  rwa [(device.looks s request looks).1]

theorem Settling.aborts {start s : σ} (settling : Settling device start s)
    (idle : (device.status s).bState = stateDfuDnloadIdle ∨ (device.status s).bState = stateDfuUploadIdle) :
    Settling device start (device.serve s abortRequest) := by
  unfold Settling at settling ⊢
  split
  next error =>
    rw [if_pos error] at settling
    rw [settling] at idle
    exact absurd idle (by decide)
  next => exact Or.inl (device.aborts s idle).2.1

/-- A state that ends the loop is the idle state, and none if the device began in its error state. -/
theorem Settling.passes {start s : σ} (settling : Settling device start s) (passes : Passes (device.status s).bState) :
    (device.status start).bState ≠ stateDfuError ∧ (device.status s).bState = stateDfuIdle ∧
    (device.status s).bStatus = dfuStatusOk := by
  unfold Settling at settling
  split at settling
  next => exact absurd settling passes.2.1
  next other =>
    refine ⟨other, ?_, device.fine s passes.2.1⟩
    rcases settling with idle | rest
    · exact idle
    · exact absurd rest passes.2.2

theorem Serves.reported {start s : σ} {exchanges : List Exchange} {response : Option QdaBuf} {dst : DfuStatus}
    (serves : Serves device start (exchanges ++ [⟨getstatusRequest, response⟩]) s)
    (settling : ∀ s, Serves device start exchanges s → Settling device start s) (reported : Reported ⟨getstatusRequest, response⟩ dst) :
    Settling device start s ∧ dst.bState = (device.status s).bState ∧ dst.bStatus = (device.status s).bStatus := by
  obtain ⟨before, earlier, rfl, rfl⟩ := serves.last
  obtain ⟨state, status⟩ := device.looks before getstatusRequest (.inl rfl)
  have known := reported.2
  rw [device.reports] at known
  cases known
  exact ⟨(settling before earlier).looks (.inl rfl), state.symm, status.symm⟩

theorem Looked.settling {start : σ} {before after : List Exchange} (settling : ∀ s, Serves device start before s → Settling device start s)
    (looked : Looked before (.inl ()) after) : ∀ s, Serves device start after s → Settling device start s := by
  intro s serves
  cases looked with
  | cleared reported error =>
    obtain ⟨earlier, asked, rfl, rfl⟩ := serves.last
    exact (asked.reported settling reported).1.looks (.inr rfl)
  | aborted reported idle =>
    obtain ⟨earlier, asked, rfl, rfl⟩ := serves.last
    obtain ⟨settled, state, _⟩ := asked.reported settling reported
    rw [state] at idle
    exact settled.aborts idle

/-- The status of a device is settled when it has become idle, and that of a device in its
error state never is. -/
theorem settle_device {start : σ} {qdaBuf : QdaBuf}
    (begins : (device.status start).bState = stateDfuError ∨ (device.status start).bState = stateDfuDnloadIdle ∨
      (device.status start).bState = stateDfuUploadIdle) :
    wp (Kept (fun _ => True) fun _ => True) (settleStatus.run qdaBuf) (fun _ later => ∀ final,
      Serves device start (dialogue later) final → (device.status start).bState ≠ stateDfuError ∧
        (device.status final).bState = stateDfuIdle ∧ (device.status final).bStatus = dfuStatusOk) [] := by
  have kept : Kept (fun _ => True) (fun _ => True) [] := ⟨trivial, fun _ _ => trivial⟩
  have first : ∀ s, Serves device start [] s → Settling device start s := by
    intro s serves
    generalize none_ : ([] : List Exchange) = exchanges at serves
    cases serves with
    | start =>
      unfold Settling
      split
      next error => exact error
      next other => exact begins.elim (fun error => absurd error other) Or.inr
    | serve => exact absurd none_ (by simp)
  refine (settleStatus_rule kept (fun _ _ => trivial) (fun _ _ _ _ _ => trivial)
    (fun exchanges => ∀ s, Serves device start exchanges s → Settling device start s) first fun _ _ => Looked.settling).imp ?_
  intro _ later _ ends final serves
  obtain ⟨before, front, dst, settling, looked, retried⟩ := ends
  cases looked with
  | @passed _ response reported passes =>
    have settled {s : σ} (serves : Serves device start (before ++ [⟨getstatusRequest, response⟩]) s) :
        dst.bStatus = dfuStatusOk ∧ (device.status start).bState ≠ stateDfuError ∧ (device.status s).bState = stateDfuIdle ∧
          (device.status s).bStatus = dfuStatusOk := by
      obtain ⟨settled, state, status⟩ := serves.reported settling reported
      rw [state] at passes
      have ends := settled.passes passes
      exact ⟨status.trans ends.2.2, ends⟩
    generalize dialogue later = exchanges at retried serves
    cases retried with
    | fine good => exact (settled serves).2
    | again bad =>
      obtain ⟨_, asked, _⟩ := serves.last
      obtain ⟨_, cleared, _⟩ := asked.last
      exact absurd (settled cleared).1 bad

theorem recovery_run {start : σ} (qdaBuf : QdaBuf)
    (idle : (device.status start).bState = stateDfuDnloadIdle ∨ (device.status start).bState = stateDfuUploadIdle) :
    ∃ history held final, Runs (settleStatus.run qdaBuf) history (.ret ((), held)) ∧
      Serves device start (dialogue history) final := by
  let asked := device.serve start getstatusRequest
  let aborted := device.serve asked abortRequest
  let report := device.respond start getstatusRequest
  let done := device.respond asked abortRequest
  let final := device.respond aborted getstatusRequest
  have still : (device.status asked).bState = stateDfuDnloadIdle ∨ (device.status asked).bState = stateDfuUploadIdle := by
    rwa [(device.looks start getstatusRequest (.inl rfl)).1]
  obtain ⟨acknowledged, now_idle, _⟩ := device.aborts asked still
  have fine : (device.status aborted).bStatus = dfuStatusOk := device.fine aborted (by rw [now_idle]; decide)
  have first : Runs ((statusRound ()).run qdaBuf) (conversation qdaBuf getstatusRequest report ++
      (slept (device.status start).bwPollTimeout ++ conversation report abortRequest done)) (.ret (.inl (), done)) := by
    have apart : ¬((device.status start).bState = stateAppIdle ∨ (device.status start).bState = stateAppDetach) ∧
        (device.status start).bState ≠ stateDfuError := by
      rcases idle with same | same <;> rw [same] <;> decide
    refine (getStatus_answered qdaBuf (device.reports start)).andThen ?_
    refine (milliSleep_run report _).andThen ?_
    rw [if_neg apart.1, if_neg apart.2, if_pos idle, ← List.append_nil (conversation report _ _)]
    refine (simple_run report qdaPktDfuAbort acknowledged).andThen ?_
    rw [if_neg (by decide)]
    exact .here _
  have second : Runs ((statusRound ()).run done) (conversation done getstatusRequest final ++
      (slept (device.status aborted).bwPollTimeout ++ [])) (.ret (.inr (device.status aborted), final)) := by
    refine (getStatus_answered done (device.reports aborted)).andThen ?_
    refine (milliSleep_run final _).andThen ?_
    rw [now_idle, if_neg (by decide), if_neg (by decide), if_neg (by decide)]
    exact .here _
  have quiet : Runs ((retryStatus (device.status aborted)).run final) [] (.ret ((), final)) := by
    rw [retryStatus, if_neg (by rw [fine]; simp)]
    exact .here _
  refine ⟨_, final, device.serve aborted getstatusRequest, (first.again second.leave).andThen quiet, ?_⟩
  rw [← List.nil_append (conversation qdaBuf getstatusRequest report)]
  simp only [List.append_nil, ← List.append_assoc, dialogue_slept, dialogue_conversation]
  exact ((Serves.start.serve getstatusRequest).serve abortRequest).serve getstatusRequest

/-- A plain DFU device, known by its state alone. -/
def plainDevice : Device UInt8 where
  status bState := ⟨if bState = stateDfuError then 0x0e else dfuStatusOk, 0, bState⟩
  serve bState request :=
    if request = clrstatusRequest then if bState = stateDfuError then stateDfuIdle else bState
    else if request = abortRequest then
      if bState = stateDfuDnloadIdle ∨ bState = stateDfuUploadIdle then stateDfuIdle else bState
    else bState
  respond bState request :=
    if request = getstatusRequest then statusReport bState (if bState = stateDfuError then 0x0e else dfuStatusOk)
    else if request = getstateRequest then stateReport bState
    else acknowledgement
  reports bState := by
    rw [if_pos rfl]
    exact report_statusReport _ _ _
  tells bState := by
    rw [if_neg (by decide), if_pos rfl]
    exact stateReport_type bState
  looks bState request looks := by
    have other : request ≠ clrstatusRequest ∧ request ≠ abortRequest := by
      rcases looks with rfl | rfl <;> decide
    rw [if_neg other.1, if_neg other.2]
    exact ⟨rfl, rfl⟩
  aborts bState idle := by
    have idle : bState = stateDfuDnloadIdle ∨ bState = stateDfuUploadIdle := idle
    have other : abortRequest ≠ getstatusRequest ∧ abortRequest ≠ getstateRequest := by decide
    rw [if_neg other.1, if_neg other.2]
    refine ⟨acknowledgement_type, ?_⟩
    rcases idle with rfl | rfl <;> decide
  clears bState error := by
    have error : bState = stateDfuError := error
    rw [if_pos rfl, if_pos error]
    exact ⟨rfl, rfl⟩
  stays bState request error other := by
    have error : bState = stateDfuError := error
    rw [if_neg other, error]
    split <;> decide
  fine bState other := if_neg other

/-- Where errors are cleared: a run does as it should exactly when it has heard of no error but in the end,
and a device comes out of the status loop unless it went in with an error. -/
theorem errors_cleared_iff (qdaBuf : QdaBuf) :
    (∀ (pageSize : Option Int) (root : QdaIf) (argv : List Opt) (now : History Calls)
      (rest : Program Calls (Int × QdaBuf)), Runs ((main pageSize root argv).run qdaBuf) now rest →
        ((∀ alarm next, Followed (dialogue now) alarm next → next.request = clrstatusRequest) ↔ Calm (dialogue now))) ∧
    (∀ (σ : Type) (device : Device σ) (start : σ),
      (device.status start).bState = stateDfuError ∨ (device.status start).bState = stateDfuDnloadIdle ∨
        (device.status start).bState = stateDfuUploadIdle →
      (((∃ history held final, Runs (settleStatus.run qdaBuf) history (.ret ((), held)) ∧
          Serves device start (dialogue history) final) ∧
        ∀ history held final, Runs (settleStatus.run qdaBuf) history (.ret ((), held)) →
          Serves device start (dialogue history) final →
          (device.status final).bState = stateDfuIdle ∧ (device.status final).bStatus = dfuStatusOk) ↔
        (device.status start).bState ≠ stateDfuError)) := by
  constructor
  · intro pageSize root argv now rest run
    have performs : Static.Performs (Within (fun _ => True) Command) (main pageSize root argv) :=
      main_within (fun _ _ => trivial) fun _ _ _ => trivial
    have asked := asked_of_performs run (performs qdaBuf)
    rw [calm_iff]
    refine ⟨fun clears alarm next followed => ?_, fun never alarm next followed => absurd followed (never alarm next)⟩
    have cleared := clears alarm next followed
    obtain ⟨before, after, split, _⟩ := followed
    exact (asked next (by rw [split]; simp)).not_clrstatus cleared
  · intro σ device start begins
    constructor
    · rintro ⟨⟨history, held, final, run, serves⟩, _⟩
      exact ((settle_device begins).returns run final serves).1
    · intro other
      refine ⟨recovery_run qdaBuf (begins.resolve_left other), fun history held final run serves => ?_⟩
      exact ((settle_device begins).returns run final serves).2

theorem plain_device_recovers : ∃ history held final, Runs (settleStatus.run QdaBuf.blank) history (.ret ((), held)) ∧
    Serves plainDevice stateDfuUploadIdle (dialogue history) final :=
  (((errors_cleared_iff QdaBuf.blank).2 UInt8 plainDevice stateDfuUploadIdle (by decide)).mpr (by decide)).1

/-- A device reports its error state, and is asked for its state next. -/
theorem error_answered_with_getstate : ∃ root argv now rest alarm next,
    Runs ((main none root argv).run QdaBuf.blank) now rest ∧ Followed (dialogue now) alarm next ∧
      next.request = getstateRequest ∧ next.request ≠ clrstatusRequest := by
  let error := statusReport stateDfuError 0x0e
  have round : Runs ((statusRound ()).run acknowledgement) (conversation acknowledgement getstatusRequest error ++
      conversation error getstateRequest (stateReport stateDfuError)) (.ret (.inl (), stateReport stateDfuError)) := by
    refine (getStatus_run acknowledgement stateDfuError 0x0e).andThen ?_
    simp only [milliSleep, ne_eq, not_true, if_false, pure_bind]
    rw [if_neg (by decide), if_pos trivial, ← List.append_nil (conversation _ _ _)]
    refine (clearStatus_run error stateDfuError).andThen ?_
    rw [if_neg (by omega)]
    exact .here _
  have settled := settle_again round (settle_run (show Passes stateDfuIdle by decide))
  have prepared : Runs ((prepare none ⟨0, 0, 0, 0, 0, 0, 0⟩ [.download "firmware.bin"]).run QdaBuf.blank) _ _ :=
    prepare_run (show readOptions [.download "firmware.bin"] = some plain from rfl) rfl rfl
      (show requestedSize none 0 1024 = some 1024 by decide) settled
  obtain ⟨rest, run⟩ := main_begins prepared
  refine ⟨_, _, _, rest, ⟨getstatusRequest, some error⟩, ⟨getstateRequest, some (stateReport stateDfuError)⟩, run,
    ⟨[⟨dfuDescRequest, some dfuDescriptor⟩, ⟨setAltRequest 255, some acknowledgement⟩],
      [⟨getstatusRequest, some (statusReport stateDfuIdle dfuStatusOk)⟩], rfl, ?_, ?_⟩, rfl, by decide⟩
  · exact ⟨_, ⟨rfl, report_statusReport _ stateDfuError 0x0e⟩, .inl rfl⟩
  · intro earlier member
    exact inquiries_asked stateDfuError earlier (List.mem_append_left [_] member)

end DfuUtilQda.Dfu

import DfuUtilQda.Host.Calls
import DfuUtilQda.Interaction.Complete
import DfuUtilQda.Proofs.Requests

/-! The dialogue with the device, as it shows in a history: the packets handed to
the transport, each with the response to it once there is one. -/

namespace DfuUtilQda.Host
open Interaction Machine Qda

/-- A request; without a response it was refused, or is still waiting for one. -/
structure Exchange where
  request : List UInt8
  response : Option QdaBuf

def answerLast (after : QdaBuf) : List Exchange → List Exchange
  | [] => []
  | [last] => [{ last with response := some after }]
  | exchange :: next :: rest => exchange :: answerLast after (next :: rest)

@[simp] theorem answerLast_snoc (after : QdaBuf) (exchanges : List Exchange) (last : Exchange) :
    answerLast after (exchanges ++ [last]) = exchanges ++ [{ last with response := some after }] := by
  induction exchanges with
  | nil => rfl
  | cons exchange rest ih =>
    cases rest with
    | nil => rfl
    | cons => exact congrArg (exchange :: ·) ih

/-- What one event adds to the dialogue. -/
def follow (exchanges : List Exchange) : Event Calls → List Exchange
  | ⟨.send request, _⟩ => exchanges ++ [⟨request, none⟩]
  | ⟨.receive _, answer⟩ => answerLast answer.2 exchanges
  | _ => exchanges

def dialogue (history : History Calls) : List Exchange := history.foldl follow []

theorem dialogue_snoc (history : History Calls) (event : Event Calls) :
    dialogue (history ++ [event]) = follow (dialogue history) event := by
  rw [dialogue, List.foldl_append]
  rfl

/-- An operation that is neither a request nor its response. -/
def Aside (op : Op) : Prop := (∀ data, op ≠ .send data) ∧ ∀ qdaBuf, op ≠ .receive qdaBuf

theorem dialogue_aside (history : History Calls) {event : Event Calls} (aside : Aside event.op) :
    dialogue (history ++ [event]) = dialogue history := by
  rw [dialogue_snoc]
  obtain ⟨op, answer⟩ := event
  cases op with
  | send data => exact absurd rfl (aside.1 data)
  | receive qdaBuf => exact absurd rfl (aside.2 qdaBuf)
  | _ => rfl

/-- The history of a request that was handed over with the given result. -/
def sent (now : History Calls) (request : List UInt8) (rc : Int) : History Calls := now ++ [⟨.send request, rc⟩]

/-- The same once the response has come. -/
def answered (now : History Calls) (request : List UInt8) (rc : Int) (asked : QdaBuf) (received : Nat) (after : QdaBuf) :
    History Calls := sent now request rc ++ [⟨.receive asked, (received, after)⟩]

@[simp] theorem dialogue_sent (now : History Calls) (request : List UInt8) (rc : Int) :
    dialogue (sent now request rc) = dialogue now ++ [⟨request, none⟩] := dialogue_snoc _ _

@[simp] theorem dialogue_answered (now : History Calls) (request : List UInt8) (rc : Int) (asked : QdaBuf) (received : Nat)
    (after : QdaBuf) : dialogue (answered now request rc asked received after) = dialogue now ++ [⟨request, some after⟩] := by
  rw [answered, dialogue_snoc, dialogue_sent]
  exact answerLast_snoc _ _ _

namespace Exchange

variable (exchange : Exchange)

def type : UInt32 := UInt32.ofNat (leAt exchange.request 0 4)

/-- Whether the response is one of the given type. -/
def answers (expected : UInt32) : Prop := ∃ after, exchange.response = some after ∧ after.type = expected

instance (expected : UInt32) : Decidable (exchange.answers expected) :=
  match exchange with
  | ⟨_, none⟩ => isFalse (by simp [answers])
  | ⟨_, some after⟩ => decidable_of_iff (after.type = expected) (by simp [answers])

abbrev acknowledged : Prop := exchange.answers qdaPktAck

/-- The status in the response to a GETSTATUS request. -/
def report : Option DfuStatus :=
  exchange.response.bind fun after =>
    if after.type = qdaPktDfuGetstatusResp then
      some { bState := after.u8 9, bStatus := after.u8 8, bwPollTimeout := after.u32 4 }
    else none

end Exchange

@[simp] theorem type_packet (type : UInt32) (payload : List UInt8) (response : Option QdaBuf) :
    (Exchange.mk (packet type payload) response).type = type := by
  rw [Exchange.type, packet, leAt, List.drop_zero, List.take_left' (leBytes_length 4 _), leNat_leBytes_of_lt type.toNat_lt,
    UInt32.ofNat_toNat]

/-- The device's side of a history: what holds of the dialogue, and the codes the program may exit with. -/
structure Kept (safe : List Exchange → Prop) (codes : Nat → Prop) (now : History Calls) : Prop where
  dialogue : safe (dialogue now)
  codes : ∀ code, (⟨.exit code, ()⟩ : Event Calls) ∈ now → codes code

section Rules

variable {always : History Calls → Prop} {now : History Calls} {α : Type} (qdaBuf : QdaBuf)

theorem wp_perform_run (op : Op) (post : Answer op × QdaBuf → History Calls → Prop) :
    wp always ((perform op).run qdaBuf) post now ↔
      always now ∧ ∀ answer, always (now ++ [⟨op, answer⟩]) ∧ post (answer, qdaBuf) (now ++ [⟨op, answer⟩]) := by
  change wp always (.call (S := Calls) op fun answer => .ret (answer, qdaBuf)) post now ↔ _
  simp only [wp_call, wp_ret]

theorem wp_exit (code : Nat) (post : α × QdaBuf → History Calls → Prop) :
    wp always ((exit code : Code α).run qdaBuf) post now ↔ always now ∧ always (now ++ [⟨.exit code, ()⟩]) := by
  change wp always (.call (S := Calls) (.exit code) fun _ => .halt) post now ↔ _
  simp only [wp_call, wp_halt]
  exact and_congr_right fun _ => ⟨fun holds => holds (), fun holds _ => holds⟩

theorem wp_fault (post : α × QdaBuf → History Calls → Prop) :
    wp always ((fault : Code α).run qdaBuf) post now ↔ always now ∧ always (now ++ [⟨.fault, ()⟩]) := by
  change wp always (.call (S := Calls) .fault fun _ => .halt) post now ↔ _
  simp only [wp_call, wp_halt]
  exact and_congr_right fun _ => ⟨fun holds => holds (), fun holds _ => holds⟩

theorem runs_exit {code : Nat} {held : QdaBuf} {result : α × QdaBuf} : ¬Runs ((exit code : Code α).run held) now (.ret result) := by
  intro run
  obtain ⟨_, _, _, halts⟩ := (runs_call (S := Calls) (.exit code) (fun _ => .halt) _).mp run
  exact runs_halt _ halts

theorem runs_fault {held : QdaBuf} {result : α × QdaBuf} : ¬Runs ((fault : Code α).run held) now (.ret result) := by
  intro run
  obtain ⟨_, _, _, halts⟩ := (runs_call (S := Calls) .fault (fun _ => .halt) _).mp run
  exact runs_halt _ halts

theorem ask_tree (request : List UInt8) (expected : UInt32) (fits : request.length ≤ qdaBufSize) :
    (ask qdaConf request expected).run qdaBuf = .call (S := Calls) (.send request) fun rc =>
      if rc < 0 then .ret (false, qdaBuf.store 0 request)
      else .call (S := Calls) (.receive (qdaBuf.store 0 request)) fun answer =>
        .ret (decide (answer.2.type = expected), answer.2) := by
  have taken := QdaBuf.take_store qdaBuf request fits
  change Program.call (S := Calls) (.send ((qdaBuf.store 0 request).bytes.take request.length)) _ = _
  rw [taken]
  congr 1
  funext rc
  by_cases refused : rc < 0
  · rw [if_pos refused]
    change ((if rc < 0 then pure false else _ : Code Bool).run (qdaBuf.store 0 request)) = _
    rw [if_pos refused]
    rfl
  · rw [if_neg refused]
    change ((if rc < 0 then pure false else _ : Code Bool).run (qdaBuf.store 0 request)) = _
    rw [if_neg refused]
    rfl

theorem wp_ask (request : List UInt8) (expected : UInt32) (fits : request.length ≤ qdaBufSize)
    (post : Bool × QdaBuf → History Calls → Prop) :
    wp always ((ask qdaConf request expected).run qdaBuf) post now ↔
      always now ∧ ∀ rc, always (sent now request rc) ∧
        (rc < 0 → post (false, qdaBuf.store 0 request) (sent now request rc)) ∧
        (0 ≤ rc → ∀ received after, always (answered now request rc (qdaBuf.store 0 request) received after) ∧
          post (decide (after.type = expected), after) (answered now request rc (qdaBuf.store 0 request) received after)) := by
  rw [ask_tree _ _ _ fits, wp_call]
  refine and_congr_right fun _ => forall_congr' fun rc => ?_
  by_cases refused : rc < 0
  · rw [if_pos refused, wp_ret]
    exact ⟨fun holds => ⟨holds.1, fun _ => holds.2, fun accepted => absurd refused (Int.not_lt.mpr accepted)⟩,
      fun holds => ⟨holds.1, holds.2.1 refused⟩⟩
  · rw [if_neg refused, wp_call]
    simp only [wp_ret]
    exact ⟨fun holds => ⟨holds.1, fun unsent => absurd unsent refused, fun _ received after => holds.2 (received, after)⟩,
      fun holds => ⟨holds.1, fun answer => holds.2.2 (Int.not_lt.mp refused) answer.1 answer.2⟩⟩

end Rules

namespace Kept

variable {safe : List Exchange → Prop} {codes : Nat → Prop} {now : History Calls} {α β : Type} {qdaBuf : QdaBuf}

theorem snoc {event : Event Calls} (kept : Kept safe codes now) (safe_ : safe (Host.dialogue (now ++ [event])))
    (runs_on : ∀ code, event.op = .exit code → codes code) : Kept safe codes (now ++ [event]) := by
  refine ⟨safe_, fun code member => ?_⟩
  rcases List.mem_append.mp member with earlier | last
  · exact kept.codes code earlier
  · exact runs_on code (congrArg Event.op (List.mem_singleton.mp last)).symm

theorem aside {event : Event Calls} (kept : Kept safe codes now) (aside : Aside event.op)
    (runs_on : ∀ code, event.op = .exit code → codes code) : Kept safe codes (now ++ [event]) :=
  kept.snoc (dialogue_aside now aside ▸ kept.dialogue) runs_on

/-- Nothing but the transport, `exit` and the device's own answers shows in what is kept. -/
theorem perform {op : Op} (kept : Kept safe codes now) (aside : Aside op) (goes : ∀ code, op ≠ .exit code)
    {post : Answer op × QdaBuf → History Calls → Prop}
    (ends : ∀ answer later, Kept safe codes later → Host.dialogue later = Host.dialogue now → post (answer, qdaBuf) later) :
    wp (Kept safe codes) ((Host.perform op).run qdaBuf) post now := by
  refine (wp_perform_run _ _ _).mpr ⟨kept, fun answer => ?_⟩
  have after : Kept safe codes (now ++ [⟨op, answer⟩]) := kept.aside aside (fun code same => absurd same (goes code))
  exact ⟨after, ends answer _ after (dialogue_aside now aside)⟩

theorem exit {code : Nat} (kept : Kept safe codes now) (allowed : codes code) {post : α × QdaBuf → History Calls → Prop} :
    wp (Kept safe codes) ((Host.exit code : Code α).run qdaBuf) post now := by
  refine (wp_exit _ _ _).mpr ⟨kept, kept.aside ⟨by simp, by simp⟩ ?_⟩
  rintro _ same
  cases same
  exact allowed

theorem fault (kept : Kept safe codes now) {post : α × QdaBuf → History Calls → Prop} :
    wp (Kept safe codes) ((Qda.fault : Code α).run qdaBuf) post now :=
  (wp_fault _ _).mpr ⟨kept, kept.aside ⟨by simp, by simp⟩ (by simp)⟩

theorem milliSleep {ms : UInt32} (kept : Kept safe codes now) {post : Unit × QdaBuf → History Calls → Prop}
    (ends : ∀ later, Kept safe codes later → Host.dialogue later = Host.dialogue now → post ((), qdaBuf) later) :
    wp (Kept safe codes) ((Host.milliSleep ms).run qdaBuf) post now := by
  unfold Host.milliSleep
  split
  · exact kept.perform ⟨by simp, by simp⟩ (by simp) (fun _ => ends)
  · exact (wp_pure _).mpr ⟨kept, ends now kept rfl⟩

theorem ask {request : List UInt8} {expected : UInt32} (kept : Kept safe codes now) (fits : request.length ≤ qdaBufSize)
    (remains : ∀ response, safe (Host.dialogue now ++ [⟨request, response⟩])) {post : Bool × QdaBuf → History Calls → Prop}
    (ends : ∀ response ok held later, Kept safe codes later → Host.dialogue later = Host.dialogue now ++ [⟨request, response⟩] →
      (ok = true ↔ (Exchange.mk request response).answers expected) → (∀ after, response = some after → held = after) →
      post (ok, held) later) :
    wp (Kept safe codes) ((Qda.ask qdaConf request expected).run qdaBuf) post now := by
  refine (wp_ask _ _ _ fits _).mpr ⟨kept, fun rc => ?_⟩
  have out : Kept safe codes (sent now request rc) := kept.snoc (dialogue_sent now request rc ▸ remains none) (by simp)
  refine ⟨out, fun _ => ends none false _ _ out (dialogue_sent _ _ _) (by simp [Exchange.answers]) (by simp), fun _ received after => ?_⟩
  have back : Kept safe codes (answered now request rc (qdaBuf.store 0 request) received after) :=
    out.snoc (dialogue_answered now request rc _ received after ▸ remains (some after)) (by simp)
  exact ⟨back, ends (some after) _ after _ back (dialogue_answered _ _ _ _ _ _) (by simp [Exchange.answers]) (by simp)⟩

end Kept

end DfuUtilQda.Host

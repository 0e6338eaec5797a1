import DfuUtilQda.Interaction.Handler
import DfuUtilQda.Interaction.Performs

/-! The order of operations. A monitor says in each of its states which operation may
come, and where an event takes it. Code that follows a monitor never performs an
operation out of turn, whatever it is answered, and neither do its operations, if
each of them is carried out in turn. -/

namespace DfuUtilQda.Interaction

structure Monitor (S : Signature) (ω : Type) where
  may : ω → S.Op → Prop
  next : ω → Event S → ω

variable {S T : Signature} {τ α β σ ω ν : Type}

namespace Monitor

variable (watch : Monitor S ω)

/-- Where a history takes the monitor. -/
def after (state : ω) (history : History S) : ω := history.foldl watch.next state

/-- Every operation came in its turn. -/
def Accepts : ω → History S → Prop
  | _, [] => True
  | state, event :: later => watch.may state event.op ∧ Accepts (watch.next state event) later

variable {watch} {state : ω} {early late : History S} {event : Event S}

@[simp] theorem after_nil : watch.after state [] = state := rfl

@[simp] theorem after_append : watch.after state (early ++ late) = watch.after (watch.after state early) late := List.foldl_append

theorem after_snoc : watch.after state (early ++ [event]) = watch.next (watch.after state early) event := after_append

theorem accepts_append : watch.Accepts state (early ++ late) ↔
    watch.Accepts state early ∧ watch.Accepts (watch.after state early) late := by
  induction early generalizing state with
  | nil => simp [Accepts]
  | cons event early ih => rw [List.cons_append, Accepts, Accepts, ih, and_assoc, after, after, List.foldl_cons]

theorem accepts_snoc : watch.Accepts state (early ++ [event]) ↔
    watch.Accepts state early ∧ watch.may (watch.after state early) event.op := by
  rw [accepts_append, Accepts, Accepts, and_true]

end Monitor

/-- From this state of the monitor on, the code performs every operation in its turn, and what it returns is as stated. -/
def Follows (watch : Monitor S ω) (code : Static τ S α) (post : α → τ → ω → Prop) (vars : τ) (state : ω) : Prop :=
  wp (watch.Accepts state) (code.run vars) (fun result now => post result.1 result.2 (watch.after state now)) []

namespace Follows

variable {watch : Monitor S ω} {post : α → τ → ω → Prop} {final : β → τ → ω → Prop} {vars : τ} {state : ω}

theorem pure {value : α} (done : post value vars state) : Follows watch (Pure.pure value) post vars state :=
  (wp_pure _).mpr ⟨trivial, done⟩

theorem halt : Follows watch (Static.halt : Static τ S α) post vars state := wp_halt.mpr trivial

theorem imp {other : α → τ → ω → Prop} {code : Static τ S α} (follows : Follows watch code post vars state)
    (implies : ∀ value held state, post value held state → other value held state) : Follows watch code other vars state :=
  wp.imp follows fun _ _ _ done => implies _ _ _ done

theorem bind {code : Static τ S α} {rest : α → Static τ S β} (first : Follows watch code post vars state)
    (second : ∀ value held state, post value held state → Follows watch (rest value) final held state) :
    Follows watch (code >>= rest) final vars state := by
  rw [Follows, StateT.run_bind, wp_seq]
  apply wp.imp first
  intro result now accepted done
  apply (second result.1 result.2 _ done).frame
  · exact fun later accepts => Monitor.accepts_append.mpr ⟨accepted, accepts⟩
  · intro value later _ done
    rw [Monitor.after_append]
    exact done

theorem andThen {onward : ω} {code : Static τ S α} {rest : α → Static τ S β}
    (first : Follows watch code (fun _ _ after => after = onward) vars state)
    (second : ∀ value held, Follows watch (rest value) final held onward) : Follows watch (code >>= rest) final vars state := by
  apply first.bind
  intro value held after there
  rw [there]
  exact second value held

theorem perform {op : S.Op} {post : S.Answer op → τ → ω → Prop} (turn : watch.may state op)
    (done : ∀ answer, post answer vars (watch.next state ⟨op, answer⟩)) : Follows watch (Static.perform op) post vars state :=
  (wp_call _ _).mpr ⟨trivial, fun answer => (wp_ret _).mpr ⟨⟨turn, trivial⟩, done answer⟩⟩

theorem perform_seq {op : S.Op} {rest : S.Answer op → Static τ S β} (turn : watch.may state op)
    (more : ∀ answer, Follows watch (rest answer) final vars (watch.next state ⟨op, answer⟩)) :
    Follows watch (Static.perform op >>= rest) final vars state := by
  have first : Follows watch (Static.perform op) (fun answer held after => held = vars ∧ after = watch.next state ⟨op, answer⟩)
      vars state := perform turn fun _ => ⟨rfl, rfl⟩
  apply first.bind
  intro answer held after there
  obtain ⟨rfl, rfl⟩ := there
  exact more answer

theorem get_seq {rest : τ → Static τ S β} (more : Follows watch (rest vars) final vars state) :
    Follows watch (get >>= rest) final vars state := more

theorem modify_seq {change : τ → τ} {rest : PUnit → Static τ S β} (more : Follows watch (rest ()) final (change vars) state) :
    Follows watch (modify change >>= rest) final vars state := more

theorem set_seq {held : τ} {rest : PUnit → Static τ S β} (more : Follows watch (rest ()) final held state) :
    Follows watch (set held >>= rest) final vars state := more

theorem loop {body : σ → Static τ S (σ ⊕ β)} {round : σ} (invariant : σ → τ → ω → Prop) (begins : invariant round vars state)
    (rounds : ∀ round vars state, invariant round vars state → Follows watch (body round) (fun outcome held after =>
      match outcome with
      | .inl next => invariant next held after
      | .inr value => final value held after) vars state) : Follows watch (Static.loop body round) final vars state := by
  apply wp.static_loop fun round held now => watch.Accepts state now ∧ invariant round held (watch.after state now)
  · exact ⟨trivial, begins⟩
  · intro round held now holds
    obtain ⟨accepted, holds⟩ := holds
    apply (rounds round held _ holds).frame
    · exact fun later accepts => Monitor.accepts_append.mpr ⟨accepted, accepts⟩
    · intro outcome later accepts done
      have accepts : watch.Accepts state (now ++ later) := Monitor.accepts_append.mpr ⟨accepted, accepts⟩
      obtain ⟨next | value, kept⟩ := outcome
      · exact ⟨accepts, by rw [Monitor.after_append]; exact done⟩
      · rw [Monitor.after_append]
        exact done

/-- Code whose operations leave the monitor where it is. -/
theorem of_performs {code : Static τ S α} (performs : Static.Performs (fun op => watch.may state op ∧
    ∀ answer, watch.next state ⟨op, answer⟩ = state) code) : Follows watch code (fun _ _ after => after = state) vars state := by
  have kept : wp (fun now => watch.Accepts state now ∧ watch.after state now = state) (code.run vars)
      (fun _ now => watch.Accepts state now ∧ watch.after state now = state) [] := by
    apply (performs vars).wp
    · intro now event allowed holds
      obtain ⟨accepted, there⟩ := holds
      rw [Monitor.accepts_snoc, Monitor.after_snoc, there]
      exact ⟨⟨accepted, allowed.1⟩, allowed.2 event.answer⟩
    · exact ⟨trivial, rfl⟩
  exact kept.mono (fun _ holds => holds.1) fun _ _ _ holds => holds.2

end Follows

section Handled

variable {above : Monitor S ω} {below : Monitor T ν} {handler : Handler S τ T} {relation : ω → τ → ν → Prop}
  {vars held : τ} {state : ω} {low : ν} {high : History S} {part : History T}

/-- What has been carried out came in its turn, if what it was carried out for did. -/
theorem carried_accepts (carries : ∀ state vars low op, relation state vars low → above.may state op →
      Follows below (handler op) (fun answer held after => relation (above.next state ⟨op, answer⟩) held after) vars low)
    (related : relation state vars low) (carried : Carried handler vars high part held) (accepted : above.Accepts state high) :
    below.Accepts low part ∧ relation (above.after state high) held (below.after low part) := by
  induction carried with
  | nil => exact ⟨trivial, related⟩
  | @snoc held kept high part more op answer _ run ih =>
    obtain ⟨accepted, turn⟩ := Monitor.accepts_snoc.mp accepted
    obtain ⟨accepts, related⟩ := ih accepted
    have follows := carries _ _ _ op related turn
    refine ⟨Monitor.accepts_append.mpr ⟨accepts, follows.safe run⟩, ?_⟩
    rw [Monitor.after_snoc, Monitor.after_append]
    exact follows.returns run

/-- A handled program follows the monitor below, where the program follows the one above. -/
theorem Follows.handle {ρ : Type} {code : Static ρ S α} {post : α → ρ → ω → Prop} {own : ρ}
    (carries : ∀ state vars low op, relation state vars low → above.may state op →
      Follows below (handler op) (fun answer held after => relation (above.next state ⟨op, answer⟩) held after) vars low)
    (answerable : ∀ op, Nonempty (S.Answer op)) (related : relation state vars low)
    (follows : Follows above code post own state) : Follows below ((code.run own).handle handler)
      (fun result held after => ∃ there, post result.1 result.2 there ∧ relation there held after) vars low := by
  apply (handled_reaches handler vars (code.run own)).mono
  · intro now midway
    obtain ⟨rest, done, held, ⟨high, run, carried⟩, rfl | ⟨op, next, part, inner, rfl, rfl, ran⟩⟩ := midway
    · exact (carried_accepts carries related carried (follows.safe run)).1
    · obtain ⟨answer⟩ := answerable op
      have step : Runs (.call op next) [⟨op, answer⟩] (next answer) := .call (.here _)
      obtain ⟨accepted, turn⟩ := Monitor.accepts_snoc.mp (follows.safe (run.trans step))
      obtain ⟨accepts, there⟩ := carried_accepts carries related carried accepted
      exact Monitor.accepts_append.mpr ⟨accepts, (carries _ _ _ op there turn).safe ran⟩
  · intro result now _ reached
    obtain ⟨high, run, carried⟩ := reached
    exact ⟨_, follows.returns run, (carried_accepts carries related carried (follows.safe run)).2⟩

end Handled

end DfuUtilQda.Interaction

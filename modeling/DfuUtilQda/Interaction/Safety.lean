import Mathlib.Data.List.Induction
import DfuUtilQda.Interaction.Environment

/-! Safety in surroundings that have a state of their own. Nothing is said about the
end of the code, which may never come to one, but at every moment until then the
state is a good one. -/

namespace DfuUtilQda.Interaction

variable {S : Signature} {τ α β σ ω : Type} {env : Environment S ω} {good : ω → Prop}

/-- What is permitted after a history is permitted from the state it leaves behind. -/
theorem permitted_later {state : ω} {early late : History S} : Permitted (env.permits state) [] (early ++ late) ↔
    Permitted (env.permits state) [] early ∧ Permitted (env.permits (env.after state early)) [] late := by
  induction late using List.reverseRecOn with
  | nil => simp [Permitted]
  | append_singleton late event ih =>
    rw [← List.append_assoc, permitted_snoc, permitted_snoc, ih, and_assoc, List.nil_append, List.nil_append,
      Environment.permits, Environment.permits, Environment.after_append]

/-- From this state on, the code comes to no state but good ones, and what it returns is as stated. -/
def Safe (env : Environment S ω) (good : ω → Prop) (code : Static τ S α) (post : α → τ → ω → Prop) (vars : τ)
    (state : ω) : Prop :=
  wp (fun now => Permitted (env.permits state) [] now → good (env.after state now)) (code.run vars)
    (fun result now => Permitted (env.permits state) [] now → post result.1 result.2 (env.after state now)) []

namespace Safe

variable {post : α → τ → ω → Prop} {final : β → τ → ω → Prop} {vars : τ} {state : ω}

theorem pure {value : α} (fine : good state) (done : post value vars state) : Safe env good (Pure.pure value) post vars state :=
  (wp_pure _).mpr ⟨fun _ => fine, fun _ => done⟩

theorem halt (fine : good state) : Safe env good (Static.halt : Static τ S α) post vars state := wp_halt.mpr fun _ => fine

theorem imp {other : α → τ → ω → Prop} {code : Static τ S α} (safe : Safe env good code post vars state)
    (implies : ∀ value held state, post value held state → other value held state) : Safe env good code other vars state :=
  wp.imp safe fun _ _ _ done allowed => implies _ _ _ (done allowed)

theorem weaken {fair : ω → Prop} {code : Static τ S α} (safe : Safe env good code post vars state)
    (implies : ∀ state, good state → fair state) : Safe env fair code post vars state :=
  wp.mono safe (fun _ kept allowed => implies _ (kept allowed)) fun _ _ _ done => done

/-- What is known of the executions that return can be added. -/
theorem sharpen {fact : α → Prop} {code : Static τ S α} (safe : Safe env good code post vars state)
    (known : ∀ value held now, Permitted (env.permits state) [] now → Runs (code.run vars) now (.ret (value, held)) → fact value) :
    Safe env good code (fun value held after => post value held after ∧ fact value) vars state := by
  intro now rest run
  refine ⟨safe.safe run, ?_⟩
  rintro result rfl allowed
  exact ⟨safe.returns run allowed, known _ _ _ allowed run⟩

/-- Code that is safe where a history leads to is safe behind that history. -/
theorem onward {code : Static τ S α} {early : History S}
    (safe : Permitted (env.permits state) [] early → Safe env good code post vars (env.after state early)) :
    wp (fun now => Permitted (env.permits state) [] now → good (env.after state now)) (code.run vars)
      (fun result now => Permitted (env.permits state) [] now → post result.1 result.2 (env.after state now)) early := by
  intro late rest run
  constructor
  · intro whole
    obtain ⟨before, further⟩ := permitted_later.mp whole
    rw [Environment.after_append]
    exact (safe before).safe run further
  · rintro result rfl whole
    obtain ⟨before, further⟩ := permitted_later.mp whole
    rw [Environment.after_append]
    exact (safe before).returns run further

theorem bind {code : Static τ S α} {rest : α → Static τ S β} (first : Safe env good code post vars state)
    (second : ∀ value held state, post value held state → Safe env good (rest value) final held state) :
    Safe env good (code >>= rest) final vars state := by
  rw [Safe, StateT.run_bind, wp_seq]
  apply wp.imp first
  intro result now _ done
  exact onward fun allowed => second _ _ _ (done allowed)

theorem perform {op : S.Op} {post : S.Answer op → τ → ω → Prop} (fine : good state)
    (done : ∀ answer, env.allows state ⟨op, answer⟩ →
      good (env.next state ⟨op, answer⟩) ∧ post answer vars (env.next state ⟨op, answer⟩)) :
    Safe env good (Static.perform op) post vars state :=
  (wp_call _ _).mpr ⟨fun _ => fine, fun answer => (wp_ret _).mpr
    ⟨fun allowed => (done answer allowed.1).1, fun allowed => (done answer allowed.1).2⟩⟩

theorem perform_seq {op : S.Op} {rest : S.Answer op → Static τ S β} (fine : good state)
    (more : ∀ answer, env.allows state ⟨op, answer⟩ → Safe env good (rest answer) final vars (env.next state ⟨op, answer⟩)) :
    Safe env good (Static.perform op >>= rest) final vars state := by
  have first : Safe env good (Static.perform op) (fun answer held after =>
      held = vars ∧ env.allows state ⟨op, answer⟩ ∧ after = env.next state ⟨op, answer⟩) vars state :=
    perform fine fun answer allowed => ⟨((more answer allowed).now) trivial, rfl, allowed, rfl⟩
  apply first.bind
  intro answer held after there
  obtain ⟨rfl, allowed, rfl⟩ := there
  exact more answer allowed

theorem modify_seq {change : τ → τ} {rest : PUnit → Static τ S β} (more : Safe env good (rest ()) final (change vars) state) :
    Safe env good (modify change >>= rest) final vars state := more

theorem loop {body : σ → Static τ S (σ ⊕ β)} {round : σ} (invariant : σ → τ → ω → Prop)
    (begins : invariant round vars state)
    (rounds : ∀ round vars state, invariant round vars state → Safe env good (body round) (fun outcome held after =>
      match outcome with
      | .inl next => invariant next held after
      | .inr value => final value held after) vars state) : Safe env good (Static.loop body round) final vars state := by
  apply wp.static_loop fun round held now => Permitted (env.permits state) [] now → invariant round held (env.after state now)
  · exact fun _ => begins
  · intro round held now holds
    apply wp.imp (onward fun allowed => rounds round held _ (holds allowed))
    intro outcome later _ done
    obtain ⟨next | value, kept⟩ := outcome
    · exact done
    · exact done

/-- What every operation of the code keeps, the code keeps. -/
theorem of_performs {allowed : S.Op → Prop} {code : Static τ S α} (performs : Static.Performs allowed code)
    (keeps : ∀ state event, allowed event.op → env.allows state event → good state → good (env.next state event))
    (begins : good state) : Safe env good code (fun _ _ after => good after) vars state :=
  (performs vars).wp (fun now event known holds whole => by
    obtain ⟨before, fine⟩ := permitted_snoc.mp whole
    rw [Environment.after_append]
    exact keeps _ event known fine (holds before)) fun _ => begins

end Safe

end DfuUtilQda.Interaction

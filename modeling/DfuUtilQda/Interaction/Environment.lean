import DfuUtilQda.Interaction.Performs
import DfuUtilQda.Interaction.Termination

/-! Total correctness in surroundings that have a state of their own. An event is
allowed or not in the state it happens in, and moves the state on. What code does
there is told by values, variables and states, and histories no longer show. -/

namespace DfuUtilQda.Interaction

structure Environment (S : Signature) (ω : Type) where
  allows : ω → Event S → Prop
  next : ω → Event S → ω

namespace Environment

variable {S : Signature} {ω : Type} (env : Environment S ω)

/-- The state that a history leaves behind. -/
def after (start : ω) (history : History S) : ω := history.foldl env.next start

def permits (start : ω) (history : History S) (event : Event S) : Prop := env.allows (env.after start history) event

variable {env} {start : ω} {early late : History S} {event : Event S}

@[simp] theorem after_append : env.after start (early ++ late) = env.after (env.after start early) late := List.foldl_append

@[simp] theorem after_singleton : env.after start [event] = env.next start event := rfl

@[simp] theorem after_nil : env.after start [] = start := rfl

end Environment

variable {S : Signature} {τ α β σ ω : Type}

/-- Wherever these surroundings are in this state, the code ends: with a value, variables and a state that are as
stated, or without a value in a state that is. -/
def Settles (env : Environment S ω) (halted : ω → Prop) (code : Static τ S α) (post : α → τ → ω → Prop) (vars : τ) (state : ω) : Prop :=
  ∀ start now, env.after start now = state →
    Ends (env.permits start) (fun later => halted (env.after start later))
      (fun result later => post result.1 result.2 (env.after start later)) now (code.run vars)

namespace Settles

variable {env : Environment S ω} {halted : ω → Prop} {post : α → τ → ω → Prop} {final : β → τ → ω → Prop} {vars : τ} {state : ω}

theorem pure {value : α} (done : post value vars state) : Settles env halted (Pure.pure value) post vars state := by
  rintro start now rfl
  exact .ret done

theorem halt (done : halted state) : Settles env halted (Static.halt : Static τ S α) post vars state := by
  rintro start now rfl
  exact .halt done

theorem imp {other : α → τ → ω → Prop} {code : Static τ S α} (settles : Settles env halted code post vars state)
    (implies : ∀ value held state, post value held state → other value held state) : Settles env halted code other vars state := by
  intro start now same
  apply (settles start now same).imp
  exact fun result later done => implies _ _ _ done

theorem bind {code : Static τ S α} {rest : α → Static τ S β} (first : Settles env halted code post vars state)
    (second : ∀ value held state, post value held state → Settles env halted (rest value) final held state) :
    Settles env halted (code >>= rest) final vars state := by
  intro start now same
  apply (first start now same).seq
  exact fun value held later done => second value held _ done start later rfl

theorem perform {op : S.Op} {post : S.Answer op → τ → ω → Prop}
    (done : ∀ answer, env.allows state ⟨op, answer⟩ → post answer vars (env.next state ⟨op, answer⟩)) :
    Settles env halted (Static.perform op) post vars state := by
  rintro start now rfl
  apply Ends.call
  intro answer allowed
  apply Ends.ret
  rw [Environment.after_append]
  exact done answer allowed

theorem perform_seq {op : S.Op} {rest : S.Answer op → Static τ S β}
    (more : ∀ answer, env.allows state ⟨op, answer⟩ → Settles env halted (rest answer) final vars (env.next state ⟨op, answer⟩)) :
    Settles env halted (Static.perform op >>= rest) final vars state := by
  rintro start now rfl
  apply Ends.perform_seq
  intro answer allowed
  exact more answer allowed start _ Environment.after_append

theorem get_seq {rest : τ → Static τ S β} (more : Settles env halted (rest vars) final vars state) :
    Settles env halted (get >>= rest) final vars state := more

theorem modify_seq {change : τ → τ} {rest : PUnit → Static τ S β} (more : Settles env halted (rest ()) final (change vars) state) :
    Settles env halted (modify change >>= rest) final vars state := more

theorem set_seq {held : τ} {rest : PUnit → Static τ S β} (more : Settles env halted (rest ()) final held state) :
    Settles env halted (set held >>= rest) final vars state := more

/-- A round that is followed by another one makes the measure of the state smaller. -/
theorem loop {body : σ → Static τ S (σ ⊕ β)} {round : σ} (invariant : σ → τ → ω → Prop) (measure : σ → ω → Nat)
    (begins : invariant round vars state)
    (rounds : ∀ round vars state, invariant round vars state → Settles env halted (body round) (fun outcome held after =>
      match outcome with
      | .inl next => invariant next held after ∧ measure next after < measure round state
      | .inr value => final value held after) vars state) :
    Settles env halted (Static.loop body round) final vars state := by
  rintro start now rfl
  apply Ends.static_loop (fun round held later => invariant round held (env.after start later))
    (fun round later => measure round (env.after start later)) begins
  intro round held later holds
  apply (rounds round held _ holds start later rfl).imp
  intro outcome last done
  obtain ⟨next | value, kept⟩ := outcome
  · exact done
  · exact done

/-- Code of which it is known elsewhere that it ends, in surroundings that no longer depend on what was before. -/
theorem of_ends {permits : History S → Event S → Prop} {stopped : History S → Prop} {finished : α × τ → History S → Prop}
    {code : Static τ S α} (ends : Ends permits stopped finished [] (code.run vars))
    (narrows : ∀ part event, env.allows (env.after state part) event → permits part event)
    (halts : ∀ part, Permitted permits [] part → Runs (code.run vars) part .halt → stopped part → halted (env.after state part))
    (returns : ∀ value held part, Permitted permits [] part → Runs (code.run vars) part (.ret (value, held)) →
      finished (value, held) part → post value held (env.after state part)) :
    Settles env halted code post vars state := by
  rintro start now rfl
  have sharp : Ends permits (fun part => halted (env.after (env.after start now) part))
      (fun result part => post result.1 result.2 (env.after (env.after start now) part)) [] (code.run vars) :=
    ends.sharpen halts fun result part allowed run done => returns result.1 result.2 part allowed run done
  have fewer (part : History S) (event : Event S) (allowed : env.permits start (now ++ part) event) : permits ([] ++ part) event := by
    rw [Environment.permits, Environment.after_append] at allowed
    exact narrows part event allowed
  apply (sharp.shift fewer).sharpen
  · intro later _ _ done
    obtain ⟨part, same, done⟩ := done
    rw [same, Environment.after_append]
    exact done
  · intro result later _ _ done
    obtain ⟨part, same, done⟩ := done
    rw [same, Environment.after_append]
    exact done

/-- Where every operation can be answered, the code does come to its end. -/
theorem occurs {code : Static τ S α} (settles : Settles env halted code post vars state)
    (answerable : ∀ state op, ∃ answer, env.allows state ⟨op, answer⟩) : ∃ now, Permitted (env.permits state) [] now ∧
      ((Runs (code.run vars) now .halt ∧ halted (env.after state now)) ∨
        ∃ value held, Runs (code.run vars) now (.ret (value, held)) ∧ post value held (env.after state now)) := by
  obtain ⟨now, allowed, result⟩ := (settles state [] rfl).completes fun now op => answerable (env.after state now) op
  refine ⟨now, allowed, ?_⟩
  obtain halts | ⟨⟨value, held⟩, run, done⟩ := result
  · exact .inl halts
  · exact .inr ⟨value, held, run, done⟩

end Settles

end DfuUtilQda.Interaction

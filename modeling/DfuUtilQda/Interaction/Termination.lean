import DfuUtilQda.Interaction.Complete

/-! Total correctness. The surroundings are a relation that says which event may
come after a history. A program ends in them when no execution they permit is
endless and each comes to a good end, with a value or, after `exit`, without one. -/

namespace DfuUtilQda.Interaction

variable {S : Signature} {τ α β σ : Type} {permits : History S → Event S → Prop} {stopped halted : History S → Prop}
  {finished sharp : α → History S → Prop} {history later : History S}

/-- Every event of `later` is permitted where it happens. -/
def Permitted (permits : History S → Event S → Prop) : History S → History S → Prop
  | _, [] => True
  | history, event :: later => permits history event ∧ Permitted permits (history ++ [event]) later

theorem permitted_snoc {event : Event S} : Permitted permits history (later ++ [event]) ↔
    Permitted permits history later ∧ permits (history ++ later) event := by
  induction later generalizing history with
  | nil => simp [Permitted]
  | cons first later ih => rw [List.cons_append, Permitted, Permitted, ih, and_assoc, List.append_assoc, List.singleton_append]

/-- Executed from `history` on, the program comes to a value that is `finished` or to a halt where `stopped` holds. -/
inductive Ends (permits : History S → Event S → Prop) (stopped : History S → Prop) {α : Type}
    (finished : α → History S → Prop) : History S → Program S α → Prop where
  | ret {history : History S} {value : α} (done : finished value history) : Ends permits stopped finished history (.ret value)
  | halt {history : History S} (done : stopped history) : Ends permits stopped finished history .halt
  | call {history : History S} {op : S.Op} {next : S.Answer op → Program S α}
      (answers : ∀ answer, permits history ⟨op, answer⟩ → Ends permits stopped finished (history ++ [⟨op, answer⟩]) (next answer)) :
      Ends permits stopped finished history (.call op next)
  | loop {history : History S} {σ β : Type} {body : σ → Program S (σ ⊕ β)} {state : σ} {next : β → Program S α}
      (round : Ends permits stopped finished history ((body state).bind (Program.resume body next))) :
      Ends permits stopped finished history (.loop body state next)

namespace Ends

variable {program rest : Program S α}

theorem after (ends : Ends permits stopped finished history program) (run : Runs program later rest)
    (allowed : Permitted permits history later) : Ends permits stopped finished (history ++ later) rest := by
  induction run generalizing history with
  | here => simpa using ends
  | @call op next answer later rest run ih =>
    cases ends with
    | call answers => simpa using ih (answers answer allowed.1) allowed.2
  | loop run ih =>
    cases ends with
    | loop round => exact ih round allowed

theorem completes (ends : Ends permits stopped finished history program)
    (answerable : ∀ now op, ∃ answer, permits now ⟨op, answer⟩) : ∃ later, Permitted permits history later ∧
      ((Runs program later .halt ∧ stopped (history ++ later)) ∨
        ∃ value, Runs program later (.ret value) ∧ finished value (history ++ later)) := by
  induction ends with
  | ret done => exact ⟨[], trivial, .inr ⟨_, .here _, by simpa using done⟩⟩
  | halt done => exact ⟨[], trivial, .inl ⟨.here _, by simpa using done⟩⟩
  | @call history op next answers ih =>
    obtain ⟨answer, permitted⟩ := answerable history op
    obtain ⟨later, allowed, result⟩ := ih answer permitted
    refine ⟨⟨op, answer⟩ :: later, ⟨permitted, allowed⟩, ?_⟩
    rw [List.append_cons]
    obtain ⟨run, done⟩ | ⟨value, run, done⟩ := result
    · exact .inl ⟨.call run, done⟩
    · exact .inr ⟨value, .call run, done⟩
  | loop round ih =>
    obtain ⟨later, allowed, ⟨run, done⟩ | ⟨value, run, done⟩⟩ := ih
    · exact ⟨later, allowed, .inl ⟨.loop run, done⟩⟩
    · exact ⟨later, allowed, .inr ⟨value, .loop run, done⟩⟩

/-- What is known of all executions holds at their end. -/
theorem sharpen (ends : Ends permits stopped finished history program)
    (halts : ∀ later, Permitted permits history later → Runs program later .halt → stopped (history ++ later) →
      halted (history ++ later))
    (returns : ∀ value later, Permitted permits history later → Runs program later (.ret value) →
      finished value (history ++ later) → sharp value (history ++ later)) :
    Ends permits halted sharp history program := by
  induction ends with
  | @ret history value done =>
    have result := returns value [] trivial (.here _)
    rw [List.append_nil] at result
    exact .ret (result done)
  | @halt history done =>
    have result := halts [] trivial (.here _)
    rw [List.append_nil] at result
    exact .halt (result done)
  | @call history op next answers ih =>
    refine .call fun answer permitted => ih answer permitted ?_ ?_
    · intro later allowed run done
      have result := halts (⟨op, answer⟩ :: later) ⟨permitted, allowed⟩ (.call run)
      rw [List.append_cons] at result
      exact result done
    · intro value later allowed run done
      have result := returns value (⟨op, answer⟩ :: later) ⟨permitted, allowed⟩ (.call run)
      rw [List.append_cons] at result
      exact result done
  | loop round ih =>
    exact .loop (ih (fun later allowed run => halts later allowed (.loop run))
      fun value later allowed run => returns value later allowed (.loop run))

theorem imp (ends : Ends permits stopped finished history program)
    (implies : ∀ value now, finished value now → sharp value now) : Ends permits stopped sharp history program :=
  ends.sharpen (fun _ _ _ done => done) fun _ _ _ _ done => implies _ _ done

/-- A program ends after another history too, where no more is permitted of what follows. -/
theorem shift {allows : History S → Event S → Prop} {now : History S} (ends : Ends permits stopped finished history program)
    (narrows : ∀ part event, allows (now ++ part) event → permits (history ++ part) event) :
    Ends allows (fun later => ∃ part, later = now ++ part ∧ stopped (history ++ part))
      (fun value later => ∃ part, later = now ++ part ∧ finished value (history ++ part)) now program := by
  have general : ∀ (part before : History S), before = history ++ part → ∀ program, Ends permits stopped finished before program →
      Ends allows (fun later => ∃ part, later = now ++ part ∧ stopped (history ++ part))
        (fun value later => ∃ part, later = now ++ part ∧ finished value (history ++ part)) (now ++ part) program := by
    intro part before same program ends
    induction ends generalizing part with
    | ret done => exact .ret ⟨part, rfl, same ▸ done⟩
    | halt done => exact .halt ⟨part, rfl, same ▸ done⟩
    | @call before op next _ ih =>
      apply Ends.call
      intro answer allowed
      have permitted := narrows part ⟨op, answer⟩ allowed
      rw [List.append_assoc]
      exact ih answer (same ▸ permitted) (part ++ [⟨op, answer⟩]) (by rw [same, List.append_assoc])
    | loop _ ih => exact .loop (ih part same)
  have whole := general [] history (List.append_nil history).symm program ends
  rwa [List.append_nil] at whole

theorem bind {rest : α → Program S β} {final : β → History S → Prop} (ends : Ends permits stopped finished history program)
    (more : ∀ value now, finished value now → Ends permits stopped final now (rest value)) :
    Ends permits stopped final history (program.bind rest) := by
  induction ends with
  | ret done => exact more _ _ done
  | halt done => exact .halt done
  | call answers ih => exact .call ih
  | loop round ih =>
    apply Ends.loop
    rw [← Program.resume_bind]
    exact ih

theorem seq {first : Static τ S α} {rest : α → Static τ S β} {vars : τ} {middle : α × τ → History S → Prop}
    {final : β × τ → History S → Prop} (ends : Ends permits stopped middle history (first.run vars))
    (more : ∀ value kept now, middle (value, kept) now → Ends permits stopped final now ((rest value).run kept)) :
    Ends permits stopped final history ((first >>= rest).run vars) := by
  rw [StateT.run_bind]
  exact ends.bind fun result now done => more result.1 result.2 now done

theorem perform_seq {op : S.Op} {rest : S.Answer op → Static τ S β} {vars : τ} {final : β × τ → History S → Prop}
    (more : ∀ answer, permits history ⟨op, answer⟩ →
      Ends permits stopped final (history ++ [⟨op, answer⟩]) ((rest answer).run vars)) :
    Ends permits stopped final history ((Static.perform op >>= rest).run vars) := .call more

/-- The rule for `while`: a measure that each round makes smaller, as long as an invariant holds. -/
theorem static_loop {body : σ → Static τ S (σ ⊕ β)} {state : σ} {vars : τ} {final : β × τ → History S → Prop}
    (invariant : σ → τ → History S → Prop) (measure : σ → History S → Nat) (start : invariant state vars history)
    (round : ∀ state vars now, invariant state vars now →
      Ends permits stopped (fun outcome later => match outcome.1 with
        | .inl next => invariant next outcome.2 later ∧ measure next later < measure state now
        | .inr value => final (value, outcome.2) later) now ((body state).run vars)) :
    Ends permits stopped final history ((Static.loop body state).run vars) := by
  generalize size : measure state history = bound
  induction bound using Nat.strongRecOn generalizing state vars history with
  | ind bound ih =>
    subst size
    apply Ends.loop
    change Ends permits stopped final history ((((body state).run vars).bind _).bind _)
    rw [Program.bind_assoc]
    refine (round state vars history start).bind ?_
    intro outcome now done
    obtain ⟨next | value, kept⟩ := outcome
    · exact ih _ done.2 done.1 rfl
    · exact .ret done

end Ends

end DfuUtilQda.Interaction

import DfuUtilQda.Interaction.Static

/-! Complete executions. A run that has returned is determined by its parts, so
what a program can do until it returns is an equation for each construct, and a
loop that returned made finitely many rounds. -/

namespace DfuUtilQda.Interaction

variable {S : Signature} {τ α β σ : Type} {history : History S}

@[simp] theorem runs_ret (found value : α) :
    Runs (.ret found : Program S α) history (.ret value) ↔ history = [] ∧ found = value := by
  constructor
  · intro run
    cases run with
    | here => exact ⟨rfl, rfl⟩
  · rintro ⟨rfl, rfl⟩
    exact .here _

@[simp] theorem runs_pure (found value : α) :
    Runs (pure found : Program S α) history (.ret value) ↔ history = [] ∧ found = value := runs_ret found value

@[simp] theorem runs_halt (value : α) : ¬Runs (.halt : Program S α) history (.ret value) := by
  intro run
  cases run

theorem runs_call (op : S.Op) (next : S.Answer op → Program S α) (value : α) :
    Runs (.call op next) history (.ret value) ↔
      ∃ answer later, history = ⟨op, answer⟩ :: later ∧ Runs (next answer) later (.ret value) := by
  constructor
  · intro run
    cases run with
    | call later => exact ⟨_, _, rfl, later⟩
  · rintro ⟨answer, later, rfl, run⟩
    exact .call run

theorem runs_bind (program : Program S α) (rest : α → Program S β) (value : β) :
    Runs (program.bind rest) history (.ret value) ↔
      ∃ found first second, Runs program first (.ret found) ∧ Runs (rest found) second (.ret value) ∧
        history = first ++ second := by
  constructor
  · intro run
    obtain ⟨middle, early, same⟩ | parts := run.bind_cases
    · cases middle with
      | ret found => exact ⟨found, history, [], early, by rw [same]; exact .here _, by simp⟩
      | halt | call | loop => cases same
    · exact parts
  · rintro ⟨found, first, second, early, late, rfl⟩
    exact early.seq late

theorem runs_seq (first : Static τ S α) (rest : α → Static τ S β) (vars kept : τ) (value : β) :
    Runs ((first >>= rest).run vars) history (.ret (value, kept)) ↔
      ∃ found held early late, Runs (first.run vars) early (.ret (found, held)) ∧
        Runs ((rest found).run held) late (.ret (value, kept)) ∧ history = early ++ late := by
  rw [StateT.run_bind]
  refine (runs_bind _ _ _).trans ⟨?_, ?_⟩
  · rintro ⟨⟨found, held⟩, parts⟩
    exact ⟨found, held, parts⟩
  · rintro ⟨found, held, parts⟩
    exact ⟨⟨found, held⟩, parts⟩

theorem runs_lift_seq (first : Static τ S α) (rest : α → StateT σ (Static τ S) β) (state after : σ) (vars kept : τ)
    (value : β) :
    Runs ((((liftM first : StateT σ (Static τ S) α) >>= rest).run state).run vars) history
        (.ret ((value, after), kept)) ↔
      ∃ found held early late, Runs (first.run vars) early (.ret (found, held)) ∧
        Runs (((rest found).run state).run held) late (.ret ((value, after), kept)) ∧ history = early ++ late := by
  have same : ((liftM first : StateT σ (Static τ S) α) >>= rest).run state =
      first >>= fun found => (rest found).run state := by
    rw [StateT.run_bind]
    change (first >>= fun found => pure (found, state)) >>= _ = _
    rw [bind_assoc]
    simp only [pure_bind]
  rw [same]
  exact runs_seq _ _ _ _ _

theorem runs_perform (op : S.Op) (vars kept : τ) (answer : S.Answer op) :
    Runs ((Static.perform op : Static τ S _).run vars) history (.ret (answer, kept)) ↔
      history = [⟨op, answer⟩] ∧ kept = vars := by
  refine (runs_call op _ _).trans ⟨?_, ?_⟩
  · rintro ⟨found, later, rfl, run⟩
    obtain ⟨rfl, same⟩ := (runs_ret _ _).mp run
    cases same
    exact ⟨rfl, rfl⟩
  · rintro ⟨rfl, rfl⟩
    exact ⟨answer, [], rfl, .here _⟩

theorem runs_perform_seq (op : S.Op) (rest : S.Answer op → Static τ S β) (vars kept : τ) (value : β) :
    Runs ((Static.perform op >>= rest).run vars) history (.ret (value, kept)) ↔
      ∃ answer later, history = ⟨op, answer⟩ :: later ∧ Runs ((rest answer).run vars) later (.ret (value, kept)) := by
  rw [runs_seq]
  constructor
  · rintro ⟨answer, held, early, late, run, more, rfl⟩
    obtain ⟨rfl, rfl⟩ := (runs_perform _ _ _ _).mp run
    exact ⟨answer, late, rfl, more⟩
  · rintro ⟨answer, later, rfl, more⟩
    exact ⟨answer, vars, _, _, (runs_perform _ _ _ _).mpr ⟨rfl, rfl⟩, more, rfl⟩

namespace Static

/-- A loop that made its rounds and was left with a value. -/
inductive Rounds (body : σ → Static τ S (σ ⊕ β)) : σ → τ → History S → β → τ → Prop where
  | leave {state : σ} {vars kept : τ} {history : History S} {value : β}
      (run : Runs ((body state).run vars) history (.ret (.inr value, kept))) :
      Rounds body state vars history value kept
  | again {state next : σ} {vars held kept : τ} {early late : History S} {value : β}
      (run : Runs ((body state).run vars) early (.ret (.inl next, held)))
      (more : Rounds body next held late value kept) :
      Rounds body state vars (early ++ late) value kept

end Static

theorem runs_loop (body : σ → Static τ S (σ ⊕ β)) (state : σ) (vars kept : τ) (value : β) :
    Runs ((Static.loop body state).run vars) history (.ret (value, kept)) ↔
      Static.Rounds body state vars history value kept := by
  constructor
  · intro run
    have looped : wp (fun _ => True) ((Static.loop body state).run vars)
        (fun result now => Static.Rounds body state vars now result.1 result.2) [] := by
      -- Whatever completes the loop from here completes it from the start.
      apply wp.static_loop (fun next held now => ∀ later value kept,
        Static.Rounds body next held later value kept → Static.Rounds body state vars (now ++ later) value kept)
      · exact fun later value kept rounds => rounds
      · intro next held now completes later rest run
        refine ⟨trivial, ?_⟩
        rintro ⟨outcome, kept⟩ rfl
        cases outcome with
        | inl again =>
          intro more value kept rounds
          simpa using completes _ value kept (.again run rounds)
        | inr value => exact completes later value kept (.leave run)
    exact looped.returns run
  · intro rounds
    induction rounds with
    | leave run => exact run.leave
    | again run _ ih => exact run.again ih

/-- A loop that came to its head and can be completed from there. -/
theorem Static.LoopHead.rounds {body : σ → Static τ S (σ ⊕ β)} {state now : σ} {vars held kept : τ} {later : History S}
    {value : β} (head : LoopHead body state vars now held history) (more : Rounds body now held later value kept) :
    Rounds body state vars (history ++ later) value kept := by
  induction head generalizing later with
  | enter => exact more
  | again _ run ih =>
    rw [List.append_assoc]
    exact ih (.again run more)

theorem Runs.split {program rest : Program S α} {first second : History S} (run : Runs program (first ++ second) rest) :
    ∃ middle, Runs program first middle ∧ Runs middle second rest := by
  generalize same : first ++ second = whole at run
  induction run generalizing first with
  | here program =>
    obtain ⟨rfl, rfl⟩ := List.append_eq_nil_iff.mp same
    exact ⟨program, .here _, .here _⟩
  | @call op next answer history rest later ih =>
    cases first with
    | nil =>
      obtain rfl : second = _ := same
      exact ⟨_, .here _, .call later⟩
    | cons event first =>
      obtain ⟨rfl, rfl⟩ := List.cons_eq_cons.mp same
      obtain ⟨middle, early, late⟩ := ih rfl
      exact ⟨middle, .call early, late⟩
  | loop later ih =>
    obtain ⟨middle, early, late⟩ := ih same
    exact ⟨middle, .loop early, late⟩

namespace Runs

variable {program rest first_ second_ : Program S α}

/-- A program is deterministic: what it has done so far does not choose between its continuations. -/
theorem continues {early : History S} {event : Event S} {later : History S} {middle : Program S α}
    (some_ : Runs program early middle) (longer : Runs program (early ++ event :: later) rest) :
    Runs middle (event :: later) rest := by
  induction some_ with
  | here => exact longer
  | call _ ih =>
    cases longer with
    | call longer => exact ih longer
  | @loop σ β body state next history middle _ ih =>
    generalize same : history ++ event :: later = whole at longer
    cases longer with
    | here => simp at same
    | loop longer => exact ih (same ▸ longer)

theorem same_op {first second : Event S} {early late : History S} {left right : Program S α}
    (one : Runs program (first :: early) left) (other : Runs program (second :: late) right) : first.op = second.op := by
  generalize same : first :: early = whole at one
  induction one generalizing late right with
  | here => cases same
  | call =>
    cases same
    cases other with
    | call => rfl
  | loop _ ih =>
    cases other with
    | loop other => exact ih other same

theorem same_value {value found : α} (one : Runs program history (.ret value)) (other : Runs program history (.ret found)) :
    value = found := by
  generalize same : Program.ret value = final at one
  induction one with
  | here =>
    subst same
    exact ((runs_ret _ _).mp other).2
  | call _ ih =>
    cases other with
    | call other => exact ih other same
  | loop _ ih =>
    cases other with
    | loop other => exact ih other same

end Runs

end DfuUtilQda.Interaction

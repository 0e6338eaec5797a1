import DfuUtilQda.Interaction.Logic

/-! Programs with static variables. The variables belong to the program, not to
its surroundings: they never appear in a history and keep their value between calls. -/

namespace DfuUtilQda.Interaction

variable {S : Signature} {τ α β σ : Type}

/-- Code of signature `S` that reads and writes static variables of type `τ`. -/
abbrev Static (τ : Type) (S : Signature) := StateT τ (Program S)

namespace Static

def perform (op : S.Op) : Static τ S (S.Answer op) := fun vars => .call op (fun answer => .ret (answer, vars))

def halt : Static τ S α := fun _ => .halt

/-- One round of a loop, with the static variables carried next to its locals. -/
def round (body : σ → Static τ S (σ ⊕ β)) (state : σ × τ) : Program S (σ × τ ⊕ β × τ) :=
  ((body state.1).run state.2).bind fun outcome => .ret (match outcome.1 with
    | .inl again => .inl (again, outcome.2)
    | .inr result => .inr (result, outcome.2))

def loop (body : σ → Static τ S (σ ⊕ β)) (state : σ) : Static τ S β :=
  fun vars => Program.iterate (round body) (state, vars)

/-- The locals and static variables with which a loop can come to its head. -/
inductive LoopHead (body : σ → Static τ S (σ ⊕ β)) (state : σ) (vars : τ) : σ → τ → History S → Prop where
  | enter : LoopHead body state vars state vars []
  | again {now : σ} {held : τ} {history later : History S} {next : σ} {kept : τ}
      (head : LoopHead body state vars now held history)
      (run : Runs ((body now).run held) later (.ret (.inl next, kept))) :
      LoopHead body state vars next kept (history ++ later)

end Static

variable {always : History S → Prop} {history : History S}

theorem wp.static_loop {body : σ → Static τ S (σ ⊕ β)} {state : σ} {vars : τ} {post : β × τ → History S → Prop}
    (invariant : σ → τ → History S → Prop) (start : invariant state vars history)
    (step : ∀ state vars now, invariant state vars now →
      wp always ((body state).run vars) (fun outcome now => match outcome.1 with
        | .inl state => invariant state outcome.2 now
        | .inr value => post (value, outcome.2) now) now) :
    wp always ((Static.loop body state).run vars) post history := by
  apply wp.loop (fun (locals : σ × τ) now => invariant locals.1 locals.2 now) start
  rintro ⟨state, vars⟩ now holds
  refine (wp_bind _ _).mpr (fun later rest run => ?_)
  obtain ⟨safe, done⟩ := step state vars now holds later rest run
  refine ⟨safe, ?_⟩
  rintro ⟨result, kept⟩ same
  have ends := done _ same
  cases result with
  | inl again => exact (wp_ret _).mpr ⟨safe, ends⟩
  | inr value => exact (wp_ret _).mpr ⟨safe, (wp_ret _).mpr ⟨safe, ends⟩⟩

/-- An invariant of the body holds each time the loop comes to its head. -/
theorem Static.LoopHead.holds {body : σ → Static τ S (σ ⊕ β)} {state now : σ} {vars held : τ}
    (head : LoopHead body state vars now held history)
    (invariant : σ → τ → History S → Prop) (start : invariant state vars [])
    (step : ∀ state vars now, invariant state vars now →
      wp (fun _ => True) ((body state).run vars) (fun outcome now => match outcome.1 with
        | .inl state => invariant state outcome.2 now
        | .inr _ => True) now) :
    invariant now held history := by
  induction head with
  | enter => exact start
  | again _ run ih => exact (step _ _ _ ih _ _ run).2 _ rfl

namespace Runs

theorem perform {op : S.Op} (answer : S.Answer op) (vars : τ) :
    Runs ((Static.perform op : Static τ S _).run vars) [⟨op, answer⟩] (.ret (answer, vars)) :=
  .call (.here _)

theorem andThen {first : Static τ S α} {rest : α → Static τ S β} {vars kept : τ} {value : α}
    {early late : History S} {final : Program S (β × τ)}
    (run : Runs (first.run vars) early (.ret (value, kept))) (more : Runs ((rest value).run kept) late final) :
    Runs ((first >>= rest).run vars) (early ++ late) final := by
  rw [StateT.run_bind]
  exact run.seq more

theorem again {body : σ → Static τ S (σ ⊕ β)} {state next : σ} {vars kept : τ} {early late : History S}
    {final : Program S (β × τ)} (run : Runs ((body state).run vars) early (.ret (.inl next, kept)))
    (more : Runs ((Static.loop body next).run kept) late final) :
    Runs ((Static.loop body state).run vars) (early ++ late) final := by
  apply Runs.loop
  change Runs ((((body state).run vars).bind _).bind _) _ _
  rw [Program.bind_assoc]
  exact run.seq more

theorem leave {body : σ → Static τ S (σ ⊕ β)} {state : σ} {vars kept : τ} {history : History S} {value : β}
    (run : Runs ((body state).run vars) history (.ret (.inr value, kept))) :
    Runs ((Static.loop body state).run vars) history (.ret (value, kept)) := by
  apply Runs.loop
  change Runs ((((body state).run vars).bind _).bind _) _ _
  rw [Program.bind_assoc, ← List.append_nil history]
  exact run.seq (.here (.ret (value, kept)))

/-- What a loop does from its head it does after the rounds that brought it there. -/
theorem after {body : σ → Static τ S (σ ⊕ β)} {state now : σ} {vars held : τ} {early late : History S}
    {final : Program S (β × τ)} (head : Static.LoopHead body state vars now held early)
    (more : Runs ((Static.loop body now).run held) late final) :
    Runs ((Static.loop body state).run vars) (early ++ late) final := by
  induction head generalizing late with
  | enter => exact more
  | again _ run ih =>
    rw [List.append_assoc]
    exact ih (run.again more)

theorem halts {first : Static τ S α} {vars : τ} {history : History S} (run : Runs (first.run vars) history .halt)
    (rest : α → Static τ S β) : Runs ((first >>= rest).run vars) history .halt := by
  rw [StateT.run_bind]
  exact run.bind _

theorem breaks {body : σ → Static τ S (σ ⊕ β)} {state : σ} {vars : τ} {history : History S}
    (run : Runs ((body state).run vars) history .halt) : Runs ((Static.loop body state).run vars) history .halt := by
  apply Runs.loop
  change Runs ((((body state).run vars).bind _).bind _) _ _
  rw [Program.bind_assoc]
  exact run.bind _

end Runs

end DfuUtilQda.Interaction

import DfuUtilQda.Interaction.Program

/-! Assertions over histories. `wp always program post history` says that from
`history` on every execution keeps `always` at each moment and ends in `post`.
It speaks about unfinished executions too, so it is safety for any environment. -/

namespace DfuUtilQda.Interaction

variable {S : Signature} {α β σ τ : Type}

def wp (always : History S → Prop) (program : Program S α) (post : α → History S → Prop) (history : History S) : Prop :=
  ∀ later rest, Runs program later rest →
    always (history ++ later) ∧ ∀ value, rest = .ret value → post value (history ++ later)

variable {always : History S → Prop} {program : Program S α} {post : α → History S → Prop} {history : History S}

theorem wp.now (holds : wp always program post history) : always history := by
  simpa using (holds [] program (.here program)).1

theorem wp.safe {later rest} (holds : wp always program post []) (run : Runs program later rest) : always later :=
  (holds later rest run).1

theorem wp.returns {later value} (holds : wp always program post []) (run : Runs program later (.ret value)) :
    post value later :=
  (holds later _ run).2 value rfl

theorem wp.mono {weaker : History S → Prop} {other : α → History S → Prop}
    (holds : wp always program post history) (implies : ∀ now, always now → weaker now)
    (ends : ∀ value now, always now → post value now → other value now) : wp weaker program other history := by
  intro later rest run
  obtain ⟨safe, done⟩ := holds later rest run
  exact ⟨implies _ safe, fun value same => ends _ _ safe (done value same)⟩

theorem wp.imp {other : α → History S → Prop} (holds : wp always program post history)
    (ends : ∀ value now, always now → post value now → other value now) : wp always program other history :=
  holds.mono (fun _ safe => safe) ends

theorem wp.and {safe : History S → Prop} {ends : α → History S → Prop} (one : wp always program post history)
    (other : wp safe program ends history) :
    wp (fun now => always now ∧ safe now) program (fun value now => post value now ∧ ends value now) history := by
  intro later rest run
  obtain ⟨first, done⟩ := one later rest run
  obtain ⟨second, too⟩ := other later rest run
  exact ⟨⟨first, second⟩, fun value same => ⟨done value same, too value same⟩⟩

/-- What a program does from the start it does after any earlier history. -/
theorem wp.frame {inner : History S → Prop} {result : α → History S → Prop}
    (holds : wp inner program result []) (safe : ∀ later, inner later → always (history ++ later))
    (ends : ∀ value later, inner later → result value later → post value (history ++ later)) :
    wp always program post history := by
  intro later rest run
  obtain ⟨kept, done⟩ := holds later rest run
  exact ⟨safe _ kept, fun value same => ends _ _ kept (done value same)⟩

@[simp] theorem wp_ret (value : α) : wp always (.ret value) post history ↔ always history ∧ post value history := by
  constructor
  · intro holds
    simpa using holds [] (.ret value) (.here _)
  · intro holds later rest run
    cases run with
    | here => simpa using holds

@[simp] theorem wp_halt : wp always (.halt : Program S α) post history ↔ always history := by
  refine ⟨wp.now, fun safe later rest run => ?_⟩
  cases run with
  | here => exact ⟨by simpa using safe, fun value impossible => by cases impossible⟩

@[simp] theorem wp_call (op : S.Op) (next : S.Answer op → Program S α) :
    wp always (.call op next) post history ↔
      always history ∧ ∀ answer, wp always (next answer) post (history ++ [⟨op, answer⟩]) := by
  constructor
  · intro holds
    refine ⟨holds.now, fun answer later rest run => ?_⟩
    simpa using holds (⟨op, answer⟩ :: later) rest (.call run)
  · intro ⟨safe, holds⟩ later rest run
    cases run with
    | here => exact ⟨by simpa using safe, fun value impossible => by cases impossible⟩
    | call run => simpa using holds _ _ _ run

theorem wp_bind (rest : α → Program S β) (final : β → History S → Prop) :
    wp always (program.bind rest) final history ↔
      wp always program (fun value now => wp always (rest value) final now) history := by
  constructor
  · intro holds later middle run
    refine ⟨(holds later _ (run.bind rest)).1, ?_⟩
    rintro value rfl second last continued
    simpa using holds (later ++ second) last (run.seq continued)
  · intro holds later last run
    obtain ⟨middle, early, rfl⟩ | ⟨value, first, second, early, late, rfl⟩ := run.bind_cases
    · obtain ⟨safe, done⟩ := holds later middle early
      refine ⟨safe, fun value same => ?_⟩
      -- The first part has come to its end exactly here.
      cases middle with
      | ret found => simpa using (done found rfl [] _ (.here _)).2 value same
      | halt | call | loop => cases same
    · simpa using (holds first _ early).2 value rfl second last late

@[simp] theorem wp_pure (value : α) : wp always (pure value) post history ↔ always history ∧ post value history :=
  wp_ret value

@[simp] theorem wp_seq (rest : α → Program S β) (final : β → History S → Prop) :
    wp always (program >>= rest) final history ↔
      wp always program (fun value now => wp always (rest value) final now) history :=
  wp_bind rest final

/-- The invariant rule for `while`. The body re-establishes the invariant for
the next round or leaves the loop, and no bound on the number of rounds is asked for. -/
theorem wp.loop {body : σ → Program S (σ ⊕ β)} {state : σ} {next : β → Program S α}
    (invariant : σ → History S → Prop) (start : invariant state history)
    (step : ∀ state now, invariant state now →
      wp always (body state) (fun result now => match result with
        | .inl state => invariant state now
        | .inr value => wp always (next value) post now) now) :
    wp always (.loop body state next) post history := by
  intro later rest run
  generalize shape : Program.loop body state next = whole at run
  -- A run inside the body is a run of what is left of the body, then of the loop.
  suffices general : ∀ (whole : Program S α) later rest, Runs whole later rest →
      ∀ (inside : Program S (σ ⊕ β)) now, whole = inside.bind (Program.resume body next) →
      wp always inside (fun result now => match result with
        | .inl state => invariant state now
        | .inr value => wp always (next value) post now) now →
      always (now ++ later) ∧ ∀ value, rest = .ret value → post value (now ++ later) by
    exact general whole later rest run (.ret (.inl state)) history shape.symm
      ((wp_ret _).mpr ⟨(step state history start).now, start⟩)
  clear shape run start
  intro whole later rest run
  induction run with
  | here program =>
    rintro inside now rfl holds
    refine ⟨by simpa using holds.now, fun value same => ?_⟩
    cases inside with
    | ret result =>
      cases result with
      | inl => cases same
      | inr found =>
        have done := ((wp_ret _).mp holds).2 [] _ (.here _)
        simpa using done.2 value same
    | halt | call | loop => cases same
  | @call op following answer later rest run ih =>
    intro inside now same holds
    cases inside with
    | ret result =>
      cases result with
      | inl => cases same
      | inr found =>
        have done : wp always (next found) post now := ((wp_ret _).mp holds).2
        change Program.call op following = next found at same
        rw [← same] at done
        exact done _ rest (.call run)
    | call =>
      cases same
      simpa using ih _ _ rfl (((wp_call _ _).mp holds).2 answer)
    | halt | loop => cases same
  | @loop σ' β' inner start following later rest run ih =>
    intro inside now same holds
    cases inside with
    | ret result =>
      cases result with
      | inl state =>
        cases same
        exact ih (body state) now rfl (step state now ((wp_ret _).mp holds).2)
      | inr found =>
        have done : wp always (next found) post now := ((wp_ret _).mp holds).2
        change Program.loop inner start following = next found at same
        rw [← same] at done
        exact done _ rest (.loop run)
    | halt | call => cases same
    | loop _ _ onward =>
      cases same
      refine ih _ now (Program.resume_bind _ _ _ _).symm ?_
      intro later rest run
      exact holds later rest (.loop run)

end DfuUtilQda.Interaction

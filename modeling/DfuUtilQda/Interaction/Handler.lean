import DfuUtilQda.Interaction.Termination

/-! Operations that are programs themselves. A handler carries out each operation
of one signature by code over another. A handled program does at every moment what
the program does, so what holds of it for all answers holds of it there. -/

namespace DfuUtilQda.Interaction

variable {S T : Signature} {τ α β σ : Type}

abbrev Handler (S : Signature) (τ : Type) (T : Signature) := (op : S.Op) → Static τ T (S.Answer op)

/-- The program with its operations carried out by a handler. -/
def Program.handle (handler : Handler S τ T) {α : Type} : Program S α → Static τ T α
  | .ret value => pure value
  | .halt => Static.halt
  | .call op next => handler op >>= fun answer => (next answer).handle handler
  | .loop body state next =>
    Static.loop (fun state => (body state).handle handler) state >>= fun result => (next result).handle handler

/-- The operations of `high` were carried out one after the other by what is in `low`. -/
inductive Carried (handler : Handler S τ T) : τ → History S → History T → τ → Prop where
  | nil {vars : τ} : Carried handler vars [] [] vars
  | snoc {vars held kept : τ} {high : History S} {low part : History T} {op : S.Op} {answer : S.Answer op}
      (before : Carried handler vars high low held) (run : Runs ((handler op).run held) part (.ret (answer, kept))) :
      Carried handler vars (high ++ [⟨op, answer⟩]) (low ++ part) kept

section Handled

variable {handler : Handler S τ T} {vars : τ} {program : Program S α}

/-- The program has come to `rest`, and its operations have left behind `low` and the variables. -/
def Reached (handler : Handler S τ T) (vars : τ) (program rest : Program S α) (low : History T) (held : τ) : Prop :=
  ∃ high, Runs program high rest ∧ Carried handler vars high low held

/-- Some operations have been carried out, and another one may be under way. -/
def Midway (handler : Handler S τ T) (vars : τ) (program : Program S α) (low : History T) : Prop :=
  ∃ rest done held, Reached handler vars program rest done held ∧
    (low = done ∨ ∃ op next part inner, rest = .call op next ∧ low = done ++ part ∧ Runs ((handler op).run held) part inner)

variable {rest : Program S α} {low : History T} {held : τ}

theorem Reached.midway (reached : Reached handler vars program rest low held) : Midway handler vars program low :=
  ⟨rest, low, held, reached, .inl rfl⟩

theorem Reached.unfolds {body : σ → Program S (σ ⊕ β)} {state : σ} {next : β → Program S α}
    (reached : Reached handler vars program (.loop body state next) low held) :
    Reached handler vars program ((body state).bind (Program.resume body next)) low held := by
  obtain ⟨high, run, carried⟩ := reached
  refine ⟨high, ?_, carried⟩
  rw [← List.append_nil high]
  exact run.trans (.loop (.here _))

theorem Reached.performs {op : S.Op} {next : S.Answer op → Program S α}
    (reached : Reached handler vars program (.call op next) low held) :
    wp (Midway handler vars program) ((handler op).run held)
      (fun result now => Reached handler vars program (next result.1) now result.2) low := by
  obtain ⟨high, run, carried⟩ := reached
  intro part inner ran
  refine ⟨⟨.call op next, low, held, ⟨high, run, carried⟩, .inr ⟨op, next, part, inner, rfl, rfl, ran⟩⟩, ?_⟩
  rintro ⟨answer, kept⟩ rfl
  exact ⟨high ++ [⟨op, answer⟩], run.trans (.call (.here _)), carried.snoc ran⟩

/-- What the handled part of a program comes to, the program has come to. -/
theorem Reached.handled {part : Program S β} {next : β → Program S α}
    (reached : Reached handler vars program (part.bind next) low held) :
    wp (Midway handler vars program) ((part.handle handler).run held)
      (fun result now => Reached handler vars program (next result.1) now result.2) low := by
  induction part generalizing low held with
  | ret value => exact (wp_pure _).mpr ⟨reached.midway, reached⟩
  | halt => exact wp_halt.mpr reached.midway
  | call op following ih =>
    rw [Program.handle, StateT.run_bind, wp_seq]
    apply (Reached.performs reached).imp
    intro result now _ further
    exact ih result.1 further
  | @loop σ γ β body state following first second =>
    rw [Program.handle, StateT.run_bind, wp_seq]
    apply wp.static_loop fun state held now =>
      Reached handler vars program (.loop body state fun result => (following result).bind next) now held
    · exact reached
    · intro state held now head
      apply (first state head.unfolds).imp
      intro result now _ further
      obtain ⟨again | result, kept⟩ := result
      · exact further
      · exact second result further

/-- Whatever the handler's operations are told, the program sees an execution of its own. -/
theorem handled_reaches (handler : Handler S τ T) (vars : τ) (program : Program S α) :
    wp (Midway handler vars program) ((program.handle handler).run vars)
      (fun result now => Reached handler vars program (.ret result.1) now result.2) [] := by
  apply Reached.handled
  rw [Program.bind_ret]
  exact ⟨[], .here _, .nil⟩

end Handled

theorem handle_bind (handler : Handler S τ T) (program : Program S α) (rest : α → Program S β) :
    (program.bind rest).handle handler = program.handle handler >>= fun value => (rest value).handle handler := by
  induction program with
  | ret value => simp only [Program.bind, Program.handle, pure_bind]
  | halt =>
    funext vars
    rfl
  | call op next ih => simp only [Program.bind, Program.handle, ih, bind_assoc]
  | loop body state next _ ih => simp only [Program.bind, Program.handle, ih, bind_assoc]

/-- One round of a handled loop is the round of the loop, handled. -/
theorem handle_round (handler : Handler S τ T) (body : σ → Program S (σ ⊕ β)) (state : σ) (next : β → Program S α)
    (vars : τ) :
    (Static.round (fun state => (body state).handle handler) (state, vars)).bind
        (Program.resume (Static.round fun state => (body state).handle handler) fun result => ((next result.1).handle handler).run result.2) =
      (((body state).bind (Program.resume body next)).handle handler).run vars := by
  rw [handle_bind, StateT.run_bind, Static.round]
  change (Program.bind _ _).bind _ = Program.bind _ _
  rw [Program.bind_assoc]
  congr 1
  funext outcome
  obtain ⟨again | result, held⟩ := outcome <;> rfl

section Carried

variable {handler : Handler S τ T} {vars held : τ} {program rest : Program S α} {high later : History S} {low : History T} {event : Event S}

theorem Carried.nothing (carried : Carried handler vars [] low held) : low = [] ∧ held = vars := by
  generalize none_ : ([] : History S) = high at carried
  cases carried with
  | nil => exact ⟨rfl, rfl⟩
  | snoc => simp_all

theorem Carried.first (carried : Carried handler vars (event :: later) low held) : ∃ part kept more, low = part ++ more ∧
    Runs ((handler event.op).run vars) part (.ret (event.answer, kept)) ∧ Carried handler kept later more held := by
  generalize whole : event :: later = high at carried
  induction carried generalizing later with
  | nil => cases whole
  | @snoc held kept high low part op answer before run ih =>
    cases high with
    | nil =>
      obtain ⟨rfl, rfl⟩ := List.cons.inj whole
      obtain ⟨rfl, rfl⟩ := before.nothing
      exact ⟨part, kept, [], by simp, run, .nil⟩
    | cons found high =>
      obtain ⟨rfl, rfl⟩ := List.cons.inj whole
      obtain ⟨front, middle, more, rfl, ran, carried⟩ := ih rfl
      exact ⟨front, middle, more ++ part, List.append_assoc _ _ _, ran, carried.snoc run⟩

/-- An execution whose operations have been carried out is one of the handled program. -/
theorem Carried.runs (run : Runs program high rest) (carried : Carried handler vars high low held) :
    Runs ((program.handle handler).run vars) low ((rest.handle handler).run held) := by
  induction run generalizing vars low with
  | here =>
    obtain ⟨rfl, rfl⟩ := carried.nothing
    exact .here _
  | call _ ih =>
    obtain ⟨part, kept, more, rfl, ran, carried⟩ := carried.first
    exact ran.andThen (ih carried)
  | loop _ ih =>
    apply Runs.loop
    have round := ih carried
    rw [← handle_round] at round
    exact round

end Carried

section Observed

variable {handler : Handler S τ T} {observe : Event T → Option (Event S)} {visible : Event S → Bool}

/-- What is seen of an operation that is carried out is the operation, once it is done, or nothing where it is not visible. -/
def Shows (handler : Handler S τ T) (observe : Event T → Option (Event S)) (visible : Event S → Bool) : Prop :=
  ∀ op vars part inner, Runs ((handler op).run vars) part inner →
    (part.filterMap observe = [] ∧ ∀ answer held, inner = .ret (answer, held) → visible ⟨op, answer⟩ = false) ∨
    ∃ answer held, inner = .ret (answer, held) ∧ visible ⟨op, answer⟩ = true ∧ part.filterMap observe = [⟨op, answer⟩]

theorem carried_observed {vars held : τ} {high : History S} {low : History T} (shows_ : Shows handler observe visible)
    (carried : Carried handler vars high low held) : low.filterMap observe = high.filter visible := by
  induction carried with
  | nil => rfl
  | @snoc held kept high low part op answer _ run ih =>
    rw [List.filterMap_append, List.filter_append, ih]
    congr 1
    obtain ⟨nothing, hidden⟩ | ⟨found, now, same, seen, shown⟩ := shows_ op held part _ run
    · rw [nothing, List.filter_cons_of_neg (by simp [hidden answer kept rfl]), List.filter_nil]
    · cases same
      rw [shown, List.filter_cons_of_pos seen, List.filter_nil]

/-- What is seen of a handled program is what is visible of an execution of its own. -/
theorem handled_observed (shows_ : Shows handler observe visible) (vars : τ) (program : Program S α) :
    wp (fun low => ∃ high rest, Runs program high rest ∧ low.filterMap observe = high.filter visible)
      ((program.handle handler).run vars)
      (fun result low => ∃ high, Runs program high (.ret result.1) ∧ low.filterMap observe = high.filter visible) [] := by
  apply (handled_reaches handler vars program).mono
  · intro low midway
    obtain ⟨rest, done, held, ⟨high, run, carried⟩, rfl | ⟨op, next, part, inner, rfl, rfl, ran⟩⟩ := midway
    · exact ⟨high, rest, run, carried_observed shows_ carried⟩
    · rw [List.filterMap_append, carried_observed shows_ carried]
      obtain ⟨nothing, _⟩ | ⟨answer, kept, rfl, seen, shown⟩ := shows_ op held part inner ran
      · exact ⟨high, _, run, by rw [nothing, List.append_nil]⟩
      · refine ⟨high ++ [⟨op, answer⟩], next answer, run.trans (.call (.here _)), ?_⟩
        rw [List.filter_append, shown, List.filter_cons_of_pos seen, List.filter_nil]
  · intro result low _ reached
    obtain ⟨high, run, carried⟩ := reached
    exact ⟨high, run, carried_observed shows_ carried⟩

end Observed

/-- What ends over the operations ends over code that carries each of them out, if that code
ends with answers the program's surroundings permit. -/
theorem Ends.handle {handler : Handler S τ T} {permits : History S → Event S → Prop} {stopped : History S → Prop}
    {finished : α → History S → Prop} {allows : History T → Event T → Prop} {halted : History T → Prop} {high : History S}
    {program : Program S α} {low : History T} {held : τ} (relation : History S → History T → τ → Prop)
    (ends : Ends permits stopped finished high program)
    (carries : ∀ high low held op, relation high low held → Ends allows halted (fun result now =>
      permits high ⟨op, result.1⟩ ∧ relation (high ++ [⟨op, result.1⟩]) now result.2) low ((handler op).run held))
    (halts : ∀ high low held, relation high low held → stopped high → halted low) (related : relation high low held) :
    Ends allows halted (fun result now => ∃ high, finished result.1 high ∧ relation high now result.2) low
      ((program.handle handler).run held) := by
  induction ends generalizing low held with
  | ret done => exact .ret ⟨_, done, related⟩
  | halt done => exact .halt (halts _ _ _ related done)
  | @call high op next _ ih =>
    rw [Program.handle]
    apply (carries high low held op related).seq
    intro answer kept now done
    exact ih answer done.1 done.2
  | @loop high σ β body state next _ ih =>
    apply Ends.loop
    have round := ih related
    rw [← handle_round] at round
    exact round

namespace Ends

variable {permits : History S → Event S → Prop} {stopped : History S → Prop} {finished : α → History S → Prop}
  {history later : History S} {program : Program S α} {value : α}

/-- Where only one answer is permitted, one execution is all of them. -/
theorem of_run (run : Runs program later (.ret value)) (done : finished value (history ++ later))
    (only : ∀ front event behind, later = front ++ event :: behind →
      ∀ answer, permits (history ++ front) ⟨event.op, answer⟩ → answer = event.answer) :
    Ends permits stopped finished history program := by
  generalize same : Program.ret value = final at run
  induction run generalizing history with
  | here =>
    subst same
    rw [List.append_nil] at done
    exact .ret done
  | @call op next answer later final run ih =>
    apply Ends.call
    intro found permitted
    obtain rfl : found = answer := by
      apply only [] ⟨op, answer⟩ later rfl
      rwa [List.append_nil]
    rw [List.append_cons] at done
    apply ih done _ same
    intro front event behind split answer allowed
    apply only (⟨op, found⟩ :: front) event behind (by rw [split]; rfl)
    rwa [List.append_cons]
  | loop run ih => exact .loop (ih done only same)

end Ends

end DfuUtilQda.Interaction

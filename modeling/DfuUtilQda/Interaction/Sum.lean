import Mathlib.Data.List.Basic
import DfuUtilQda.Interaction.Handler
import DfuUtilQda.Interaction.Performs

/-! Two signatures side by side. Code over one of them runs over both, and an
execution over both has a part for each. -/

namespace DfuUtilQda.Interaction

variable {S T : Signature} {τ α β σ : Type}

abbrev Signature.sum (S T : Signature) : Signature := ⟨S.Op ⊕ T.Op, Sum.elim S.Answer T.Answer⟩

namespace Program

/-- Code over the first signature. -/
def left {α : Type} : Program S α → Program (S.sum T) α
  | .ret value => .ret value
  | .halt => .halt
  | .call op next => .call (S := S.sum T) (.inl op) fun answer => (next answer).left
  | .loop body state next => .loop (fun state => (body state).left) state fun result => (next result).left

theorem left_bind (program : Program S α) (rest : α → Program S β) :
    ((program.bind rest).left : Program (S.sum T) β) = program.left.bind fun value => (rest value).left := by
  induction program with
  | ret | halt => rfl
  | call op next ih => exact congrArg (Program.call (S := S.sum T) (.inl op)) (funext fun answer => ih answer rest)
  | loop body state next _ ih => simp only [bind, left, ih]

theorem left_round (program : Program S (σ ⊕ β)) (body : σ → Program S (σ ⊕ β)) (next : β → Program S α) :
    ((program.bind (resume body next)).left : Program (S.sum T) α) =
      program.left.bind (resume (fun state => (body state).left) fun result => (next result).left) := by
  rw [left_bind]
  congr 1
  funext outcome
  cases outcome <;> rfl

theorem left_performs {allowed : (S.sum T).Op → Prop} {program : Program S α} (fine : ∀ op, allowed (.inl op)) :
    (program.left : Program (S.sum T) α).Performs allowed := by
  induction program with
  | ret | halt => trivial
  | call op next ih => exact ⟨fine op, ih⟩
  | loop body state next first second => exact ⟨first, second⟩

end Program

def Event.left (event : Event S) : Event (S.sum T) := ⟨.inl event.op, event.answer⟩

def Event.right (event : Event T) : Event (S.sum T) := ⟨.inr event.op, event.answer⟩

/-- The event of the first signature that this is. -/
def Event.left? : Event (S.sum T) → Option (Event S)
  | ⟨.inl op, answer⟩ => some ⟨op, answer⟩
  | ⟨.inr _, _⟩ => none

def Event.right? : Event (S.sum T) → Option (Event T)
  | ⟨.inl _, _⟩ => none
  | ⟨.inr op, answer⟩ => some ⟨op, answer⟩

namespace History

/-- What was done over the first signature. -/
def lefts (history : History (S.sum T)) : History S := history.filterMap Event.left?

def rights (history : History (S.sum T)) : History T := history.filterMap Event.right?

@[simp] theorem lefts_nil : lefts ([] : History (S.sum T)) = [] := rfl
@[simp] theorem rights_nil : rights ([] : History (S.sum T)) = [] := rfl

@[simp] theorem lefts_append (early late : History (S.sum T)) : lefts (early ++ late) = lefts early ++ lefts late :=
  List.filterMap_append

@[simp] theorem rights_append (early late : History (S.sum T)) : rights (early ++ late) = rights early ++ rights late :=
  List.filterMap_append

@[simp] theorem lefts_left (part : History S) : lefts (part.map Event.left : History (S.sum T)) = part := by
  induction part with
  | nil => rfl
  | cons event part ih => exact congrArg (event :: ·) ih

@[simp] theorem rights_left (part : History S) : rights (part.map Event.left : History (S.sum T)) = [] := by
  induction part with
  | nil => rfl
  | cons event part ih => exact ih

@[simp] theorem lefts_right (event : Event T) : lefts ([event.right] : History (S.sum T)) = [] := rfl

@[simp] theorem rights_right (event : Event T) : rights ([event.right] : History (S.sum T)) = [event] := rfl

end History

/-- Code over one of two signatures runs as it does over that one alone. -/
theorem Runs.of_left {program : Program S α} {history : History (S.sum T)} {rest : Program (S.sum T) α}
    (run : Runs program.left history rest) :
    ∃ part middle, Runs program part middle ∧ history = part.map Event.left ∧ rest = middle.left := by
  generalize shape : program.left = whole at run
  induction run generalizing program with
  | here =>
    subst shape
    exact ⟨[], program, .here _, rfl, rfl⟩
  | @call op next answer history rest later ih =>
    cases program with
    | call found following =>
      cases shape
      obtain ⟨part, middle, run, rfl, rfl⟩ := ih rfl
      exact ⟨⟨found, answer⟩ :: part, middle, .call run, rfl, rfl⟩
    | ret | halt | loop => cases shape
  | @loop σ β body state next history rest later ih =>
    cases program with
    | loop inner start following =>
      cases shape
      obtain ⟨part, middle, run, rfl, rfl⟩ := ih (Program.left_round _ _ _)
      exact ⟨part, middle, .loop run, rfl, rfl⟩
    | ret | halt | call => cases shape

theorem Runs.left {program rest : Program S α} {part : History S} (run : Runs program part rest) :
    Runs (program.left : Program (S.sum T) α) (part.map Event.left) rest.left := by
  induction run with
  | here => exact .here _
  | call _ ih => exact .call ih
  | loop _ ih =>
    apply Runs.loop
    rw [← Program.left_round]
    exact ih

theorem left_returns {program : Program S α} {history : History (S.sum T)} {value : α}
    (run : Runs program.left history (.ret value)) : ∃ part, Runs program part (.ret value) ∧ history = part.map Event.left := by
  obtain ⟨part, middle, ran, rfl, same⟩ := run.of_left
  cases middle with
  | ret found =>
    cases same
    exact ⟨part, ran, rfl⟩
  | halt | call | loop => cases same

/-- Code over one signature ends over both, where what is permitted of it there was permitted before. -/
theorem Ends.left {permits : History S → Event S → Prop} {stopped : History S → Prop} {finished : α → History S → Prop}
    {allows : History (S.sum T) → Event (S.sum T) → Prop} {start : History S} {now : History (S.sum T)} {program : Program S α}
    (ends : Ends permits stopped finished start program)
    (narrows : ∀ part event, allows (now ++ part.map Event.left) event.left → permits (start ++ part) event) :
    Ends allows (fun later => ∃ part, later = now ++ part.map Event.left ∧ stopped (start ++ part))
      (fun value later => ∃ part, later = now ++ part.map Event.left ∧ finished value (start ++ part)) now
      (program.left : Program (S.sum T) α) := by
  have general : ∀ (part : History S) (before : History S), before = start ++ part → ∀ program,
      Ends permits stopped finished before program →
      Ends allows (fun later => ∃ part, later = now ++ part.map Event.left ∧ stopped (start ++ part))
        (fun value later => ∃ part, later = now ++ part.map Event.left ∧ finished value (start ++ part))
        (now ++ part.map Event.left) (program.left : Program (S.sum T) α) := by
    intro part before same program ends
    induction ends generalizing part with
    | ret done => exact .ret ⟨part, rfl, same ▸ done⟩
    | halt done => exact .halt ⟨part, rfl, same ▸ done⟩
    | @call history op next _ ih =>
      apply Ends.call
      intro answer allowed
      have permitted := narrows part ⟨op, answer⟩ allowed
      have further := ih answer (same ▸ permitted) (part ++ [⟨op, answer⟩]) (by rw [same, List.append_assoc])
      rw [List.map_append, ← List.append_assoc] at further
      exact further
    | loop _ ih =>
      apply Ends.loop
      rw [← Program.left_round]
      exact ih part same
  have whole := general [] start (List.append_nil start).symm program ends
  rwa [List.map_nil, List.append_nil] at whole

end DfuUtilQda.Interaction

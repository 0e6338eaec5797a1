import Mathlib.Control.Basic

/-! Imperative programs that interact with their surroundings. A program is a
tree of typed operations; a `while` loop is a node of the tree, so a loop that
never ends needs no fuel. Answers come from outside and are never constrained
here. A program that has called `exit` is a `halt`: it has ended without a value. -/

namespace DfuUtilQda.Interaction

/-- The operations a program may perform and the answers each of them can get. -/
structure Signature where
  Op : Type
  Answer : Op → Type

inductive Program (S : Signature) : Type → Type 1 where
  | ret {α : Type} (value : α) : Program S α
  | halt {α : Type} : Program S α
  | call {α : Type} (op : S.Op) (next : S.Answer op → Program S α) : Program S α
  | loop {σ β α : Type} (body : σ → Program S (σ ⊕ β)) (state : σ) (next : β → Program S α) : Program S α

variable {S : Signature} {α β γ σ τ : Type}

namespace Program

def bind {α β : Type} (program : Program S α) (rest : α → Program S β) : Program S β :=
  match program with
  | .ret value => rest value
  | .halt => .halt
  | .call op next => .call op (fun answer => (next answer).bind rest)
  | .loop body state next => .loop body state (fun result => (next result).bind rest)

instance : Monad (Program S) where
  pure := .ret
  bind := bind

@[simp] theorem ret_bind (value : α) (rest : α → Program S β) : (Program.ret value).bind rest = rest value := rfl

theorem bind_ret {α : Type} (program : Program S α) : program.bind .ret = program := by
  induction program with
  | ret | halt => rfl
  | call op next ih => simp only [bind, ih]
  | loop body state next _ ih => simp only [bind, ih]

theorem bind_assoc {α : Type} (program : Program S α) (first : α → Program S β) (second : β → Program S γ) :
    (program.bind first).bind second = program.bind (fun value => (first value).bind second) := by
  induction program with
  | ret | halt => rfl
  | call op next ih => simp only [bind, ih]
  | loop body state next _ ih => simp only [bind, ih]

instance : LawfulMonad (Program S) :=
  LawfulMonad.mk' (Program S) bind_ret (fun _ _ => rfl) bind_assoc

/-- Where a loop goes when its body has finished: round again, or on. -/
def resume (body : σ → Program S (σ ⊕ β)) (next : β → Program S α) : σ ⊕ β → Program S α
  | .inl state => .loop body state next
  | .inr result => next result

theorem resume_bind (program : Program S (σ ⊕ β)) (body : σ → Program S (σ ⊕ β)) (next : β → Program S α)
    (rest : α → Program S γ) : (program.bind (resume body next)).bind rest =
      program.bind (resume body (fun result => (next result).bind rest)) := by
  rw [bind_assoc]
  congr 1
  funext step
  cases step <;> rfl

def perform (op : S.Op) : Program S (S.Answer op) := .call op .ret

def iterate (body : σ → Program S (σ ⊕ β)) (state : σ) : Program S β := .loop body state .ret

end Program

/-- One operation together with the answer it got. -/
structure Event (S : Signature) where
  op : S.Op
  answer : S.Answer op

abbrev History (S : Signature) := List (Event S)

/-- `Runs program history rest`: answered as in `history`, `program` comes to `rest`.
Every prefix of an execution is one; a finished execution comes to `.ret`. -/
inductive Runs {α : Type} : Program S α → History S → Program S α → Prop where
  | here (program : Program S α) : Runs program [] program
  | call {op : S.Op} {next : S.Answer op → Program S α} {answer : S.Answer op} {history rest}
      (later : Runs (next answer) history rest) : Runs (.call op next) (⟨op, answer⟩ :: history) rest
  | loop {σ β : Type} {body : σ → Program S (σ ⊕ β)} {state : σ} {next : β → Program S α} {history rest}
      (later : Runs ((body state).bind (Program.resume body next)) history rest) :
      Runs (.loop body state next) history rest

namespace Runs

theorem trans {program middle rest : Program S α} {first second : History S}
    (early : Runs program first middle) (late : Runs middle second rest) :
    Runs program (first ++ second) rest := by
  induction early with
  | here => exact late
  | call _ ih => exact .call (ih late)
  | loop _ ih => exact .loop (ih late)

theorem bind {program middle : Program S α} {history : History S} (early : Runs program history middle)
    (rest : α → Program S β) : Runs (program.bind rest) history (middle.bind rest) := by
  induction early with
  | here => exact .here _
  | call _ ih => exact .call ih
  | @loop σ γ body state next history middle _ ih =>
    apply Runs.loop
    exact Program.resume_bind (body state) body next rest ▸ ih

theorem seq {program : Program S α} {value : α} {rest : α → Program S β} {final : Program S β}
    {first second : History S} (early : Runs program first (.ret value))
    (late : Runs (rest value) second final) : Runs (program.bind rest) (first ++ second) final :=
  (early.bind rest).trans late

/-- A run of a sequence is either still in its first part or has finished it. -/
theorem bind_cases {program : Program S α} {rest : α → Program S β} {history : History S} {final : Program S β}
    (run : Runs (program.bind rest) history final) :
    (∃ middle, Runs program history middle ∧ final = middle.bind rest) ∨
    ∃ value first second, Runs program first (.ret value) ∧ Runs (rest value) second final ∧
      history = first ++ second := by
  generalize shape : program.bind rest = whole at run
  induction run generalizing program with
  | here => exact Or.inl ⟨program, .here _, shape.symm⟩
  | @call op next answer history final later ih =>
    cases program with
    | ret value =>
      refine Or.inr ⟨value, [], _, .here _, ?_, rfl⟩
      rw [← Program.ret_bind value rest, shape]
      exact .call later
    | halt | loop => cases shape
    | call other following =>
      cases shape
      obtain ⟨middle, run, same⟩ | ⟨value, first, second, early, late, same⟩ := ih rfl
      · exact Or.inl ⟨middle, .call run, same⟩
      · exact Or.inr ⟨value, _, second, .call early, late, by rw [same]; rfl⟩
  | @loop σ γ body state next history final later ih =>
    cases program with
    | ret value =>
      refine Or.inr ⟨value, [], _, .here _, ?_, rfl⟩
      rw [← Program.ret_bind value rest, shape]
      exact .loop later
    | halt | call => cases shape
    | loop _ _ following =>
      cases shape
      obtain ⟨middle, run, same⟩ | ⟨value, first, second, early, late, same⟩ :=
        ih (Program.resume_bind (body state) body following rest)
      · exact Or.inl ⟨middle, .loop run, same⟩
      · exact Or.inr ⟨value, first, second, .loop early, late, same⟩

end Runs

end DfuUtilQda.Interaction

import Mathlib
import DfuUtilQda.Interaction.Termination

/-! Termination on a budget. Some answers have a cost, and the surroundings stop
giving them when the budget is spent. A loop whose rounds have to be paid for ends,
however much its surroundings can do besides. -/

namespace DfuUtilQda.Interaction

variable {S : Signature} {τ α β σ : Type}

def spent (cost : Event S → Nat) (history : History S) : Nat := (history.map cost).sum

/-- The event can still be paid for. -/
def Affordable (cost : Event S → Nat) (budget : Nat) (now : History S) (event : Event S) : Prop :=
  spent cost (now ++ [event]) ≤ budget

/-- The code ends on the budget. What is known of its result may depend on what has been spent by then. -/
def Affords (cost : Event S → Nat) (budget : Nat) (stopped : History S → Prop) (code : Static τ S α)
    (post : α → Nat → Prop) (before : Nat) : Prop :=
  before ≤ budget → ∀ now vars, spent cost now = before →
    Ends (Affordable cost budget) stopped
      (fun result later => post result.1 (spent cost later) ∧ before ≤ spent cost later ∧ spent cost later ≤ budget)
      now (code.run vars)

variable {cost : Event S → Nat} {budget before : Nat} {stopped : History S → Prop} {post : α → Nat → Prop}

@[simp] theorem spent_append (early late : History S) : spent cost (early ++ late) = spent cost early + spent cost late := by
  simp [spent]

@[simp] theorem spent_singleton (event : Event S) : spent cost [event] = cost event := by
  simp [spent]

namespace Affords

theorem pure {value : α} (done : post value before) : Affords cost budget stopped (Pure.pure value : Static τ S α) post before := by
  rintro within now vars rfl
  exact .ret ⟨done, Nat.le_refl _, within⟩

theorem quiet {code : Static τ S α} (silent : ∀ vars, ∃ value held, code.run vars = .ret (value, held) ∧ post value before) :
    Affords cost budget stopped code post before := by
  rintro within now vars rfl
  obtain ⟨value, held, same, done⟩ := silent vars
  rw [same]
  exact .ret ⟨done, Nat.le_refl _, within⟩

theorem imp {code : Static τ S α} {other : α → Nat → Prop} (affords : Affords cost budget stopped code post before)
    (implies : ∀ value after, before ≤ after → after ≤ budget → post value after → other value after) :
    Affords cost budget stopped code other before := by
  intro within now vars same
  apply (affords within now vars same).imp
  intro result later done
  obtain ⟨holds, more, less⟩ := done
  exact ⟨implies _ _ more less holds, more, less⟩

theorem bind {code : Static τ S α} {rest : α → Static τ S β} {final : β → Nat → Prop}
    (first : Affords cost budget stopped code post before)
    (second : ∀ value after, before ≤ after → post value after → Affords cost budget stopped (rest value) final after) :
    Affords cost budget stopped (code >>= rest) final before := by
  intro within now vars same
  apply (first within now vars same).seq
  intro value held later done
  obtain ⟨holds, more, less⟩ := done
  apply (second value _ more holds less later held rfl).imp
  intro result last ends
  exact ⟨ends.1, Nat.le_trans more ends.2.1, ends.2.2⟩

/-- A sequence whose second part does not need to know how the first went. -/
theorem andThen {code : Static τ S α} {rest : α → Static τ S β} {final : β → Nat → Prop}
    (first : Affords cost budget stopped code (fun _ _ => True) before)
    (second : ∀ value after, Affords cost budget stopped (rest value) final after) :
    Affords cost budget stopped (code >>= rest) final before :=
  first.bind fun value after _ _ => second value after

theorem perform {op : S.Op} {post : S.Answer op → Nat → Prop}
    (done : ∀ answer, before + cost ⟨op, answer⟩ ≤ budget → post answer (before + cost ⟨op, answer⟩)) :
    Affords cost budget stopped (Static.perform op : Static τ S _) post before := by
  rintro within now vars rfl
  apply Ends.call
  intro answer permitted
  rw [Affordable, spent_append, spent_singleton] at permitted
  apply Ends.ret
  rw [spent_append, spent_singleton]
  exact ⟨done answer permitted, Nat.le_add_right _ _, permitted⟩

theorem perform_seq {op : S.Op} {rest : S.Answer op → Static τ S β} {final : β → Nat → Prop}
    (more : ∀ answer, before + cost ⟨op, answer⟩ ≤ budget →
      Affords cost budget stopped (rest answer) final (before + cost ⟨op, answer⟩)) :
    Affords cost budget stopped (Static.perform op >>= rest) final before :=
  (perform fun answer affordable => show (fun answer after => Affords cost budget stopped (rest answer) final after) answer _ from
    more answer affordable).bind fun _ _ _ holds => holds

/-- A round that is followed by another one makes the measure smaller, which may count what is left of the budget. -/
theorem loop {body : σ → Static τ S (σ ⊕ β)} {state : σ} {final : β → Nat → Prop} (invariant : σ → Nat → Prop)
    (measure : σ → Nat → Nat) (start : invariant state before)
    (round : ∀ state before, invariant state before → Affords cost budget stopped (body state) (fun outcome after =>
      match outcome with
      | .inl next => invariant next after ∧ measure next after < measure state before
      | .inr value => final value after) before) :
    Affords cost budget stopped (Static.loop body state) final before := by
  rintro within now vars rfl
  apply Ends.static_loop
    (fun state _ later => invariant state (spent cost later) ∧ spent cost now ≤ spent cost later ∧ spent cost later ≤ budget)
    (fun state later => measure state (spent cost later)) ⟨start, Nat.le_refl _, within⟩
  intro state held later holds
  obtain ⟨holds, more, less⟩ := holds
  apply (round state _ holds less later held rfl).imp
  intro outcome last done
  obtain ⟨next | value, kept⟩ := outcome
  · obtain ⟨⟨holds, smaller⟩, grown, fits⟩ := done
    exact ⟨⟨holds, Nat.le_trans more grown, fits⟩, smaller⟩
  · exact ⟨done.1, Nat.le_trans more done.2.1, done.2.2⟩

end Affords

end DfuUtilQda.Interaction

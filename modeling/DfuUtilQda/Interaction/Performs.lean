import DfuUtilQda.Interaction.Static

/-! Which operations a program can perform at all, whatever it is answered. This is
a property of the tree, checked construct by construct, and holds of every run. -/

namespace DfuUtilQda.Interaction

variable {S : Signature} {τ α β σ : Type}

/-- Every operation of the program is allowed. -/
def Program.Performs {α : Type} (allowed : S.Op → Prop) : Program S α → Prop
  | .ret _ => True
  | .halt => True
  | .call op next => allowed op ∧ ∀ answer, (next answer).Performs allowed
  | .loop body _ next => (∀ state, (body state).Performs allowed) ∧ ∀ value, (next value).Performs allowed

variable {allowed : S.Op → Prop}

theorem Program.Performs.bind {program : Program S α} {rest : α → Program S β} (first : program.Performs allowed)
    (second : ∀ value, (rest value).Performs allowed) : (program.bind rest).Performs allowed := by
  induction program with
  | ret value => exact second value
  | halt => exact first
  | call op next ih => exact ⟨first.1, fun answer => ih answer (first.2 answer) second⟩
  | loop body state next _ ih => exact ⟨first.1, fun value => ih value (first.2 value) second⟩

theorem Program.Performs.mono {wider : S.Op → Prop} {program : Program S α} (performs : program.Performs allowed)
    (implies : ∀ op, allowed op → wider op) : program.Performs wider := by
  induction program with
  | ret | halt => trivial
  | call op next ih => exact ⟨implies op performs.1, fun answer => ih answer (performs.2 answer)⟩
  | loop body state next first second =>
    exact ⟨fun state => first state (performs.1 state), fun value => second value (performs.2 value)⟩

theorem Runs.performs {program rest : Program S α} {history : History S} (run : Runs program history rest)
    (performs : program.Performs allowed) : rest.Performs allowed ∧ ∀ event ∈ history, allowed event.op := by
  induction run with
  | here => exact ⟨performs, by simp⟩
  | call _ ih =>
    obtain ⟨remains, earlier⟩ := ih (performs.2 _)
    exact ⟨remains, List.forall_mem_cons.mpr ⟨performs.1, earlier⟩⟩
  | loop _ ih =>
    refine ih ((performs.1 _).bind fun outcome => ?_)
    cases outcome with
    | inl => exact performs
    | inr value => exact performs.2 value

/-- What each allowed operation preserves, a program of such operations preserves. -/
theorem Program.Performs.wp {always : History S → Prop} {program : Program S α} {history : History S}
    (performs : program.Performs allowed) (step : ∀ now event, allowed event.op → always now → always (now ++ [event]))
    (start : always history) : Interaction.wp always program (fun _ now => always now) history := by
  intro later rest run
  have kept : ∀ (events : History S) (now : History S), (∀ event ∈ events, allowed event.op) → always now →
      always (now ++ events) := by
    intro events
    induction events with
    | nil => exact fun now _ holds => by simpa using holds
    | cons event events ih =>
      intro now fine holds
      have next := ih (now ++ [event]) (fun later member => fine later (List.mem_cons_of_mem _ member))
        (step now event (fine event List.mem_cons_self) holds)
      simpa using next
  have holds := kept later history (run.performs performs).2 start
  exact ⟨holds, fun _ _ => holds⟩

theorem Program.performs_any {α : Type} (program : Program S α) : program.Performs fun _ => True := by
  induction program with
  | ret | halt => trivial
  | call op next ih => exact ⟨trivial, ih⟩
  | loop body state next first second => exact ⟨first, second⟩

/-- An assertion that nothing can make false again. -/
theorem wp.stable {always : History S → Prop} {program : Program S α} {history : History S}
    (step : ∀ now event, always now → always (now ++ [event])) (start : always history) :
    wp always program (fun _ now => always now) history :=
  program.performs_any.wp (fun now event _ => step now event) start

namespace Static

def Performs (allowed : S.Op → Prop) (code : Static τ S α) : Prop := ∀ vars, (code.run vars).Performs allowed

theorem Performs.pure (value : α) : Performs allowed (Pure.pure value : Static τ S α) := fun _ => trivial

theorem Performs.halt : Performs allowed (Static.halt : Static τ S α) := fun _ => trivial

theorem Performs.perform {op : S.Op} (fine : allowed op) : Performs allowed (Static.perform op : Static τ S _) :=
  fun _ => ⟨fine, fun _ => trivial⟩

theorem Performs.bind {first : Static τ S α} {rest : α → Static τ S β} (early : Performs allowed first)
    (late : ∀ value, Performs allowed (rest value)) : Performs allowed (first >>= rest) :=
  fun vars => (early vars).bind fun outcome => late outcome.1 outcome.2

theorem Performs.loop {body : σ → Static τ S (σ ⊕ β)} {state : σ} (rounds : ∀ state, Performs allowed (body state)) :
    Performs allowed (Static.loop body state) :=
  fun _ => ⟨fun now => (rounds now.1 now.2).bind fun _ => trivial, fun _ => trivial⟩

theorem Performs.modify (change : τ → τ) :
    Performs allowed (MonadState.modifyGet (fun vars => ((), change vars)) : Static τ S Unit) := fun _ => trivial

theorem Performs.get : Performs allowed (MonadState.get : Static τ S τ) := fun _ => trivial

theorem Performs.lift {program : Program S α} (performs : program.Performs allowed) :
    Performs allowed (liftM program : Static τ S α) := fun _ => performs.bind fun _ => trivial

theorem Performs.set (vars : τ) : Performs allowed (MonadStateOf.set vars : Static τ S PUnit) := fun _ => trivial

theorem Performs.mono {wider : S.Op → Prop} {code : Static τ S α} (performs : Performs allowed code)
    (implies : ∀ op, allowed op → wider op) : Performs wider code :=
  fun vars => (performs vars).mono implies

end Static

end DfuUtilQda.Interaction

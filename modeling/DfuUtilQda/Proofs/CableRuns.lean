import DfuUtilQda.Link.Cable
import DfuUtilQda.Proofs.ReceptionRuns
import DfuUtilQda.Proofs.Transmission

/-! Executions of a cable, stretch by stretch: what lets one end send a unit, reply
with a byte or read what is waiting, while the other does nothing. -/

namespace DfuUtilQda.Xmodem
open Interaction Machine

variable {α β : Type}

/-- The bytes a history has read. -/
def heardBytes (history : History Io) : List UInt8 := (outcomes history).filterMap id

theorem heardBytes_of {history : History Io} {bytes : List UInt8} (heard : outcomes history = bytes.map some) :
    heardBytes history = bytes := by
  rw [heardBytes, heard, List.filterMap_map]
  exact List.filterMap_some

theorem Acts.append {law : List UInt8 → List UInt8 → Prop} {history later : History Io} {out into out' into' out'' into'' : Line}
    (first : Acts law history out into out' into') (second : Acts law later out' into' out'' into'') :
    Acts law (history ++ later) out into out'' into'' := by
  induction first with
  | nil => exact second
  | puts ch through atMost lawful _ ih => exact .puts ch through atMost lawful (ih second)
  | reads ch waiting _ ih => exact .reads ch waiting (ih second)
  | timesOut _ ih => exact .timesOut (ih second)
  | sets ms _ ih => exact .sets ms (ih second)

/-- The forward line once whole units have been sent and have met their fates. -/
def Line.after (done : List (List UInt8 × List UInt8)) (taken : List UInt8) : Line :=
  ⟨done.flatMap Prod.fst, done.flatMap Prod.snd, taken⟩

theorem Befalls.shorter {unit fate : List UInt8} (befalls : Befalls unit fate) : fate.length ≤ unit.length := by
  cases befalls with
  | kept => exact Nat.le_refl _
  | dropped => exact Nat.zero_le _
  | damaged frame other => exact Nat.le_of_eq (other.size.trans frame.size.symm)

theorem acts_unit {done : List (List UInt8 × List UInt8)} {unit fate taken : List UInt8} {into : Line}
    (befell : ∀ pair ∈ done, Befalls pair.1 pair.2) (befalls : Befalls unit fate) :
    Acts CarriesUnits (puts unit) (.after done taken) into (.after (done ++ [(unit, fate)]) taken) into := by
  have some_ (rest : List UInt8) (count : Nat) (left : rest = unit.drop count) :
      Acts CarriesUnits (puts rest)
        ⟨done.flatMap Prod.fst ++ unit.take count, done.flatMap Prod.snd ++ fate.take count, taken⟩ into
        (.after (done ++ [(unit, fate)]) taken) into := by
    induction rest generalizing count with
    | nil =>
      have past : unit.length ≤ count := by simpa [eq_comm] using left
      have shorter := befalls.shorter
      rw [List.take_of_length_le past, List.take_of_length_le (by omega)]
      simpa [Line.after, puts] using Acts.nil
    | cons ch rest ih =>
      have next : unit.take (count + 1) = unit.take count ++ [ch] := by
        rw [List.take_add, ← left]
        rfl
      have through : fate.take (count + 1) = fate.take count ++ (fate.drop count).take 1 := List.take_add
      refine .puts ch ((fate.drop count).take 1) (List.length_take_le _ _) ?_ ?_
      · exact ⟨done, befell, unit, fate, count + 1, befalls, by simp [next], by simp [through]⟩
      · have later := ih (count + 1) (by rw [← List.drop_drop, ← left]; rfl)
        simpa [next, through, puts] using later
  simpa [Line.after] using some_ unit 0 rfl

theorem acts_silent {law : List UInt8 → List UInt8 → Prop} {history : History Io} {out into : Line} (sound : Sound history)
    (silent : emitted history = []) (waiting : into.taken ++ heardBytes history <+: into.carried) :
    Acts law history out into out ⟨into.sent, into.carried, into.taken ++ heardBytes history⟩ := by
  induction history generalizing into with
  | nil => simpa [heardBytes] using Acts.nil
  | cons event history ih =>
    obtain ⟨_, later⟩ := (sound_cons _ _).mp sound
    obtain ⟨op, answer⟩ := event
    cases op with
    | getc =>
      cases answer with
      | none => exact .timesOut (ih later silent waiting)
      | some ch =>
        have here : into.taken ++ [ch] ++ heardBytes history <+: into.carried := by simpa [heardBytes] using waiting
        refine .reads ch ((List.prefix_append _ _).trans here) ?_
        simpa [heardBytes] using @ih ⟨into.sent, into.carried, into.taken ++ [ch]⟩ later silent here
    | putc ch => cases silent
    | setTimeout ms => exact .sets ms (ih later silent waiting)
    | fault => simp at sound

theorem acts_reply {ch : UInt8} {sent carried taken through : List UInt8} {into : Line}
    (lossy : carried.Sublist sent) (some_ : through = [ch] ∨ through = []) :
    Acts CarriesBytes (puts [ch]) ⟨sent, carried, taken⟩ into ⟨sent ++ [ch], carried ++ through, taken⟩ into := by
  rcases some_ with rfl | rfl
  · exact .puts ch [ch] (Nat.le_refl 1) (lossy.append (List.Sublist.refl _)) .nil
  · exact .puts ch [] (Nat.zero_le 1) (by simpa [CarriesBytes] using lossy.trans (List.sublist_append_left _ _)) .nil

theorem acts_heard {history : History Io} {ch : UInt8} {sent carried taken through : List UInt8} {into : Line} (sound : Sound history)
    (silent : emitted history = []) (waiting : into.taken ++ heardBytes history <+: into.carried)
    (lossy : carried.Sublist sent) (some_ : through = [ch] ∨ through = []) :
    Acts CarriesBytes (history ++ puts [ch]) ⟨sent, carried, taken⟩ into ⟨sent ++ [ch], carried ++ through, taken⟩
      ⟨into.sent, into.carried, into.taken ++ heardBytes history⟩ :=
  (acts_silent sound silent waiting).append (acts_reply lossy some_)

theorem acts_answer {history : History Io} {ch : UInt8} {replies taken : List UInt8} {into : Line} (sound : Sound history)
    (silent : emitted history = []) (waiting : into.taken ++ heardBytes history <+: into.carried) :
    Acts CarriesBytes (history ++ puts [ch]) ⟨replies, replies, taken⟩ into ⟨replies ++ [ch], replies ++ [ch], taken⟩
      ⟨into.sent, into.carried, into.taken ++ heardBytes history⟩ :=
  acts_heard sound silent waiting (List.Sublist.refl _) (.inl rfl)

theorem acts_next {done : List (List UInt8 × List UInt8)} {ch : UInt8} {unit fate taken : List UInt8} {into : Line}
    (waiting : into.taken ++ [ch] <+: into.carried) (befell : ∀ pair ∈ done, Befalls pair.1 pair.2) (befalls : Befalls unit fate) :
    Acts CarriesUnits ([hears (some ch)] ++ puts unit) (.after done taken) into (.after (done ++ [(unit, fate)]) taken)
      ⟨into.sent, into.carried, into.taken ++ [ch]⟩ :=
  Acts.append (.reads ch waiting .nil) (acts_unit befell befalls)

namespace Cable.Reaches

variable {origin : Cable α β} {transmitter : Program Io α} {receiver : Program Io β} {forth back forth' back' : Line}
  {history rest : History Io}

theorem transmits {value : α} (reaches : Reaches origin ⟨transmitter, receiver, forth, back⟩)
    (run : Runs transmitter (history ++ rest) (.ret value)) (acts : Acts CarriesUnits history forth back forth' back') :
    ∃ next, Reaches origin ⟨next, receiver, forth', back'⟩ ∧ Runs next rest (.ret value) := by
  obtain ⟨next, early, late⟩ := run.split
  exact ⟨next, reaches.tail (.transmitter early acts), late⟩

theorem receives {value : β} (reaches : Reaches origin ⟨transmitter, receiver, forth, back⟩)
    (run : Runs receiver (history ++ rest) (.ret value)) (acts : Acts CarriesBytes history back forth back' forth') :
    ∃ next, Reaches origin ⟨transmitter, next, forth', back'⟩ ∧ Runs next rest (.ret value) := by
  obtain ⟨next, early, late⟩ := run.split
  exact ⟨next, reaches.tail (.receiver early acts), late⟩

end Cable.Reaches

end DfuUtilQda.Xmodem

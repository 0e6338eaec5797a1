import DfuUtilQda.Interaction.Termination
import DfuUtilQda.Proofs.Loading

/-! Loading a file comes to its end. Only the loop over standard input could go
on for ever: each round that follows a whole chunk has less left to read. -/

namespace DfuUtilQda.Dfu
open Interaction Machine Qda Host

/-- The next call succeeds in full, and reads what comes next. -/
def Supplying (contents : List UInt8) (now : History Calls) (event : Event Calls) : Prop :=
  Supplied (remaining contents now) event

/-- The program did not go on: it has called `exit`, or broken a rule of C. -/
def Stopped (now : History Calls) : Prop := ¬Undisturbed now

/-- The buffer of the device's messages is what it was. -/
def Unaltered {α : Type} (held : QdaBuf) (result : α × QdaBuf) (_ : History Calls) : Prop := result.2 = held

section Ends

variable {contents : List UInt8} {now later : History Calls} {held kept : QdaBuf} {file : DfuFile} {verbose : Nat}
  {checkSuffix : SuffixReq} {checkPrefix : PrefixReq} {α : Type} {permits : History Calls → Event Calls → Prop}
  {final : α × QdaBuf → History Calls → Prop}

theorem permitted_supplies : Permitted (Supplying contents) now later ↔ Supplies (remaining contents now) later := by
  induction later generalizing now with
  | nil => simp [Permitted, Supplies]
  | cons event later ih => rw [Permitted, Supplies, ih, remaining_snoc, Supplying]

theorem supplied_answerable (contents : List UInt8) (op : Op) : ∃ answer, Supplied contents ⟨op, answer⟩ := by
  cases op with
  | openRead => exact ⟨(0 : Int), Int.le_refl 0⟩
  | seekEnd => exact ⟨(contents.length : Int), rfl⟩
  | seekStart => exact ⟨(0 : Int), rfl⟩
  | malloc size | realloc size => exact ⟨some (blankBlock size), by simp [Supplied]⟩
  | read _ size => exact ⟨some ⟨contents.take size, List.length_take_le _ _⟩, _, rfl, rfl⟩
  | fread size => exact ⟨⟨contents.take size, List.length_take_le _ _⟩, rfl⟩
  | receive => exact ⟨(0, QdaBuf.blank), trivial⟩
  | send | serialDetach | serialIoOpen | openNew | openTruncated | write => exact ⟨(0 : Int), trivial⟩
  | serialIoClose | milliSleep | close | report | exit | fault => exact ⟨(), trivial⟩

theorem stopped_snoc {event : Event Calls} (last : (∃ code, event.op = .exit code) ∨ event.op = .fault) :
    Stopped (now ++ [event]) := by
  intro calm
  obtain ⟨goes, sound⟩ := calm event (by simp)
  obtain ⟨code, exits⟩ | faults := last
  · exact goes code exits
  · exact sound faults

theorem exit_ends (code : Nat) : Ends permits Stopped final now ((Host.exit code : Host.Code α).run held) :=
  .perform_seq fun _ _ => .halt (stopped_snoc (.inl ⟨code, rfl⟩))

theorem fault_ends : Ends permits Stopped final now ((fault : Host.Code α).run held) :=
  .call fun _ _ => .halt (stopped_snoc (.inr rfl))

theorem malloc_ends {size : Int} {rest : List UInt8 → Host.Code α}
    (more : ∀ block : Block (toSize size),
      Ends permits Stopped final (now ++ [⟨.malloc (toSize size), some block⟩]) ((rest block.val).run held)) :
    Ends permits Stopped final now ((dfuMalloc size >>= rest).run held) := by
  rw [dfuMalloc, bind_assoc]
  apply Ends.perform_seq
  intro answer _
  cases answer with
  | none => exact exit_ends exSoftware
  | some block => exact more block

theorem readNamed_ends : Ends permits Stopped (Unaltered held) now ((readNamed file).run held) := by
  rw [readNamed]
  apply Ends.perform_seq
  intro f _
  split
  · exact exit_ends _
  apply Ends.perform_seq
  intro offset _
  split
  · exact exit_ends _
  apply Ends.perform_seq
  intro start _
  split
  · exact exit_ends _
  apply malloc_ends
  intro firmware
  apply Ends.perform_seq
  intro answer _
  cases answer with
  | none => exact exit_ends _
  | some bytes =>
    dsimp only
    split
    · exact exit_ends _
    · exact .perform_seq fun _ _ => .ret rfl

theorem stdinRound_ends (state : DfuFile × Int) : Ends permits Stopped (Unaltered held) now ((stdinRound state).run held) := by
  simp only [stdinRound]
  split
  · apply Ends.perform_seq
    intro answer _
    cases answer with
    | none => exact exit_ends _
    | some fresh =>
      apply Ends.perform_seq
      intro chunk _
      split
      · exact fault_ends
      · exact .ret rfl
  · exact .ret rfl

theorem stdinRound_again {state next : DfuFile × Int} (run : Runs ((stdinRound state).run held) later (.ret (.inl next, kept))) :
    state.2 = stdinChunkSize ∧ ∃ block, ∃ chunk : AtMost stdinChunkSize, next.2 = chunk.val.length ∧
      later = [⟨.realloc (toSize (toInt (state.1.total + stdinChunkSize))), block⟩, ⟨.fread stdinChunkSize, chunk⟩] := by
  simp only [stdinRound] at run
  by_cases full : state.2 = stdinChunkSize
  · rw [if_pos full] at run
    obtain ⟨answer, events, rfl, grown⟩ := (runs_perform_seq _ _ _ _ _).mp run
    cases answer with
    | none =>
      obtain ⟨_, _, _, halts⟩ := (runs_perform_seq _ _ _ _ _).mp grown
      exact absurd halts (runs_halt _)
    | some fresh =>
      obtain ⟨chunk, events, rfl, stored⟩ := (runs_perform_seq _ _ _ _ _).mp grown
      split at stored
      · obtain ⟨_, _, _, halts⟩ := (runs_call _ _ _).mp stored
        exact absurd halts (runs_halt _)
      · obtain ⟨rfl, same⟩ := (runs_ret _ _).mp stored
        cases same
        exact ⟨full, some fresh, chunk, rfl, rfl⟩
  · rw [if_neg full] at run
    obtain ⟨_, same⟩ := (runs_ret _ _).mp run
    cases same

/-- After a whole chunk there is less left to read; after any other, nothing. -/
theorem stdinRound_less {state next : DfuFile × Int} (supplied : Supplies (remaining contents now) later)
    (run : Runs ((stdinRound state).run held) later (.ret (.inl next, kept))) :
    (remaining contents (now ++ later)).length + (if next.2 = stdinChunkSize then 1 else 0) <
      (remaining contents now).length + (if state.2 = stdinChunkSize then 1 else 0) := by
  obtain ⟨full, block, chunk, read, rfl⟩ := stdinRound_again run
  obtain ⟨_, delivered, _⟩ := supplied
  have delivered : chunk.val = (remaining contents now).take stdinChunkSize := delivered
  have rest : remaining contents (now ++ [⟨.realloc _, block⟩, ⟨.fread stdinChunkSize, chunk⟩]) =
      (remaining contents now).drop stdinChunkSize := remaining_append
  have size : stdinChunkSize = 65536 := rfl
  rw [rest, List.length_drop, if_pos full, read, delivered, List.length_take]
  split <;> omega

theorem stdinLoop_ends (short : contents.length < 2 ^ 31) {state : DfuFile × Int} (head : AtChunk contents file state now)
    (supplies : Supplies contents now) :
    Ends (Supplying contents) Stopped (Unaltered held) now ((Static.loop stdinRound state).run held) := by
  apply Ends.static_loop (fun state vars now => AtChunk contents file state now ∧ Supplies contents now ∧ vars = held)
    (fun state now => (remaining contents now).length + if state.2 = stdinChunkSize then 1 else 0) ⟨head, supplies, rfl⟩
  intro state vars now holds
  obtain ⟨head, supplies, rfl⟩ := holds
  apply (stdinRound_ends state).sharpen (fun _ _ _ stopped => stopped)
  intro outcome later allowed run unaltered
  obtain ⟨next | result, kept⟩ := outcome
  · have supplied := permitted_supplies.mp allowed
    have whole : Supplies contents (now ++ later) := supplies_append.mpr ⟨supplies, supplied⟩
    have onward : AtChunk contents file next (now ++ later) := (stdinRound_spec short head later _ run).2 _ rfl whole
    exact ⟨⟨onward, whole, unaltered⟩, stdinRound_less supplied run⟩
  · exact unaltered

theorem readStdin_ends (short : contents.length < 2 ^ 31) :
    Ends (Supplying contents) Stopped (Unaltered held) [] ((readStdin file).run held) := by
  rw [readStdin]
  apply malloc_ends
  intro block
  apply Ends.perform_seq
  intro chunk delivered
  have delivered : chunk.val = contents.take stdinChunkSize := delivered
  have room : block.val.length = stdinChunkSize := block.2.trans (toSize_nat (by decide))
  have calm : Undisturbed ([⟨.malloc (toSize stdinChunkSize), some block⟩] ++ [⟨.fread stdinChunkSize, chunk⟩]) := by
    simp [Undisturbed]
  exact stdinLoop_ends short (first_chunk calm rfl room delivered) ⟨by simp [Supplied], delivered, trivial⟩

theorem checkFile_ends : Ends permits Stopped (Unaltered held) now ((checkFile verbose file checkSuffix checkPrefix).run held) := by
  rw [checkFile_eq]
  cases examine file checkSuffix checkPrefix with
  | error code => exact exit_ends code
  | ok loaded =>
    dsimp only
    split
    · unfold reportPrefix
      cases loaded.prefixType with
      | zero => exact @Ends.seq _ _ _ _ _ _ _ _ _ _ (Unaltered held) _ (exit_ends exIoerr) fun _ _ _ unaltered => .ret unaltered
      | lmdfu | lpcdfuUnencrypted => exact .perform_seq fun _ _ => .ret rfl
    · exact .ret rfl

theorem dfuLoadFile_ends (short : contents.length < 2 ^ 31) :
    Ends (Supplying contents) Stopped (Unaltered held) [] ((dfuLoadFile verbose file checkSuffix checkPrefix).run held) := by
  unfold dfuLoadFile
  by_cases stdin : file.name = "-"
  · simp only [if_pos stdin]
    refine (readStdin_ends short).seq ?_
    rintro file kept now rfl
    exact checkFile_ends
  · simp only [if_neg stdin]
    refine readNamed_ends.seq ?_
    rintro file kept now rfl
    exact checkFile_ends

theorem dfuLoadFile_occurs (short : contents.length < 2 ^ 31) : ∃ now spare, Supplies contents now ∧
    ((∃ loaded, examined file checkSuffix checkPrefix contents spare = .ok loaded ∧
        Runs ((dfuLoadFile verbose file checkSuffix checkPrefix).run held) now (.ret (loaded, held))) ∨
      ∃ code, examined file checkSuffix checkPrefix contents spare = .error code ∧ Exits code now ∧
        Runs ((dfuLoadFile verbose file checkSuffix checkPrefix).run held) now .halt) := by
  have ends := @dfuLoadFile_ends contents held file verbose checkSuffix checkPrefix short
  obtain ⟨now, allowed, result⟩ := ends.completes fun now => supplied_answerable (remaining contents now)
  have supplies : Supplies contents now := permitted_supplies.mp allowed
  obtain ⟨run, stopped⟩ | ⟨⟨loaded, kept⟩, run, rfl⟩ := result
  · obtain calm | ⟨spare, code, found, declined⟩ := (dfuLoadFile_spec short).safe run supplies
    · exact absurd calm stopped
    · exact ⟨now, spare, supplies, .inr ⟨code, found, declined.exits, run⟩⟩
  · obtain ⟨spare, _, _, found, _⟩ := (dfuLoadFile_spec short).returns run supplies
    exact ⟨now, spare, supplies, .inl ⟨loaded, found, run⟩⟩

theorem ends_onward {stopped : History Calls → Prop} {finished : α → History Calls → Prop} {program rest : Program Calls α}
    (ends : Ends (Supplying contents) stopped finished [] program) (supplies : Supplies contents now)
    (run : Runs program now rest) : ∃ later final, Supplies contents (now ++ later) ∧ Runs rest later final ∧
      (final = .halt ∨ ∃ value, final = .ret value) := by
  obtain ⟨later, allowed, result⟩ := (ends.after run (permitted_supplies.mpr supplies)).completes
    fun now => supplied_answerable (remaining contents now)
  have whole : Supplies contents (now ++ later) := supplies_append.mpr ⟨supplies, permitted_supplies.mp allowed⟩
  obtain ⟨halts, _⟩ | ⟨value, returns, _⟩ := result
  · exact ⟨later, .halt, whole, halts, .inl rfl⟩
  · exact ⟨later, .ret value, whole, returns, .inr ⟨value, rfl⟩⟩

end Ends

end DfuUtilQda.Dfu

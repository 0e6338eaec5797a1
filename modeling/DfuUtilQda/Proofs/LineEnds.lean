import DfuUtilQda.Host.Line
import DfuUtilQda.Proofs.ReceptionStops
import DfuUtilQda.Proofs.SenderDiscipline
import DfuUtilQda.Proofs.SessionEnds

/-! The program on a serial line that falls silent at last. Whatever has come on it
before, the program ends: every request the transport takes has cost it a byte. -/

namespace DfuUtilQda.Xmodem
open Interaction Machine

/-- What comes on a line on which these outcomes come, and then nothing. -/
def silentAfter (answers : List (Option UInt8)) (index : Nat) : Option UInt8 := answers.getD index none

/-- The outcomes come on the line in their order. -/
def Along (answers : List (Option UInt8)) (now : History Io) : Event Io → Prop
  | ⟨.getc, answer⟩ => answer = silentAfter answers (outcomes now).length
  | _ => True

section Input

variable {answers heard early late : List (Option UInt8)} {start : Nat}

theorem Arrive.answer {line : Nat → Option UInt8} {answer : Option UInt8}
    (arrive : Arrive line start (early ++ answer :: late)) : answer = line (start + early.length) := by
  have place := congrArg (·[early.length]?) arrive
  simpa using place

theorem Arrive.supplied (arrive : Arrive (silentAfter answers) 0 heard) : Supplied answers heard := by
  refine ⟨heard.length, ?_⟩
  rw [List.prefix_iff_eq_take]
  apply List.ext_getElem?
  intro index
  rw [List.getElem?_take]
  by_cases inside : index < heard.length
  · have whole : heard[index]? = some (silentAfter answers index) := by
      rw [arrive]
      simp [inside]
    rw [whole, if_pos inside]
    by_cases early : index < answers.length
    · rw [List.getElem?_append_left early]
      simp [silentAfter, early]
    · rw [List.getElem?_append_right (by omega), List.getElem?_replicate, if_pos (by omega)]
      simp [silentAfter, early]
  · rw [if_neg inside, List.getElem?_eq_none (by omega)]

theorem Supplied.arrive (supplied : Supplied (answers.drop start) heard) : Arrive (silentAfter answers) start heard := by
  obtain ⟨silence, more, whole⟩ := supplied
  apply List.ext_getElem?
  intro index
  by_cases inside : index < heard.length
  · have place : (answers.drop start ++ List.replicate silence none)[index]? = heard[index]? := by
      rw [← whole, List.getElem?_append_left inside]
    rw [← place]
    have long : index < (answers.drop start ++ List.replicate silence none).length := by
      rw [← whole, List.length_append]
      omega
    simp only [List.length_append, List.length_drop, List.length_replicate] at long
    simp only [List.getElem?_map, List.getElem?_range inside, Option.map_some, silentAfter]
    by_cases early : index < answers.length - start
    · rw [List.getElem?_append_left (by simpa using early), List.getElem?_drop]
      simp [show start + index < answers.length by omega]
    · rw [List.getElem?_append_right (by simpa using early), List.getElem?_replicate, if_pos (by simp; omega)]
      simp [show answers.length ≤ start + index by omega]
  · rw [List.getElem?_eq_none (by omega), List.getElem?_eq_none (by simpa using inside)]

theorem Arrive.arrivals_le (arrive : Arrive (silentAfter answers) 0 heard) : arrivals heard ≤ arrivals answers := by
  obtain ⟨silence, front⟩ := arrive.supplied
  have fewer : arrivals heard ≤ arrivals (answers ++ List.replicate silence none) := front.sublist.countP_le
  simpa [arrivals, List.countP_append, List.countP_replicate] using fewer

theorem arrivals_append : arrivals (early ++ late) = arrivals early + arrivals late := List.countP_append

end Input

section Calls

variable {answers : List (Option UInt8)} {start : History Io} {stopped : History Io → Prop} {α : Type}

/-- A program on the line has one execution. -/
theorem along_ends {program : Program Io α} {later : History Io} {value : α} (run : Runs program later (.ret value))
    (before : Arrive (silentAfter answers) 0 (outcomes start))
    (arrive : Arrive (silentAfter answers) (outcomes start).length (outcomes later)) :
    Interaction.Ends (Along answers) stopped (fun found now => found = value ∧ now = start ++ later ∧
      Arrive (silentAfter answers) 0 (outcomes now)) start program := by
  have whole : Arrive (silentAfter answers) 0 (outcomes (start ++ later)) := by
    rw [outcomes_append]
    apply before.append
    rwa [Nat.zero_add]
  apply Interaction.Ends.of_run run ⟨rfl, rfl, whole⟩
  intro front event behind split answer permitted
  obtain ⟨op, told⟩ := event
  cases op with
  | getc =>
    subst split
    rw [← List.append_assoc, outcomes_append, outcomes_getc] at whole
    have same := whole.answer
    rw [Nat.zero_add] at same
    exact permitted.trans same.symm
  | putc | setTimeout | fault => rfl

theorem transmission_ends (data : List UInt8) (pktBuf : XmodemPacket) (before : Arrive (silentAfter answers) 0 (outcomes start)) :
    Interaction.Ends (Along answers) stopped (fun result now => ∃ part, now = start ++ part ∧ Arrive (silentAfter answers) 0 (outcomes now) ∧
      (¬result.1 < 0 → 0 < arrivals (outcomes part))) start ((xmodemTransmitPackage data).run pktBuf) := by
  obtain ⟨now, retv, kept, transmits, arrive⟩ :=
    call_along (fun index => silentAfter answers ((outcomes start).length + index)) data pktBuf
  have arrives : Arrive (silentAfter answers) (outcomes start).length (outcomes now) := by
    rw [Arrive] at arrive ⊢
    simpa using arrive
  apply (along_ends ((runs_transmitPackage _ _ _ _ _).mpr transmits) before arrives).imp
  intro result later done
  obtain ⟨rfl, same, heard⟩ := done
  refine ⟨now, same, heard, fun success => ?_⟩
  obtain ⟨starts, sendings, ends, rfl, disciplined⟩ := transmits.disciplined
  have acked : some ack ∈ ends := by
    by_contra never
    have failed := disciplined.failure never
    dsimp only at success
    omega
  apply List.countP_pos_iff.mpr
  refine ⟨some ack, ?_, rfl⟩
  rw [callHistory, outcomes_append, outcomes_copies]
  exact List.mem_append_right _ acked

theorem reception_ends (buf : List UInt8) (pktBuf : XmodemPacket) (short : buf.length ≤ 2 ^ 31)
    (before : Arrive (silentAfter answers) 0 (outcomes start)) :
    Interaction.Ends (Along answers) stopped (fun _ now => ∃ part, now = start ++ part ∧ Arrive (silentAfter answers) 0 (outcomes now)) start
      ((xmodemReceivePackage buf).run pktBuf) := by
  obtain ⟨whole, final, run, supplied, ended⟩ := xmodemReceivePackage_ends buf pktBuf (answers.drop (outcomes start).length)
  obtain ⟨result, rfl⟩ | ⟨_, large⟩ := ended
  · apply (along_ends run before supplied.arrive).imp
    intro result later done
    exact ⟨whole, done.2⟩
  · omega

end Calls

end DfuUtilQda.Xmodem

namespace DfuUtilQda.Host
open Interaction Machine Qda Xmodem Dfu

/-- A whole chunk from standard input. -/
def wholeChunk : Event Calls → Nat
  | ⟨.fread size, chunk⟩ => if chunk.val.length = size then 1 else 0
  | _ => 0

/-- Surroundings with a finite input: so many bytes come on the line, and so many whole chunks
from standard input. All other calls may have any result. -/
def FiniteInput (answers : List (Option UInt8)) (chunks : Nat) (now : History Port) : Event Port → Prop
  | ⟨.inl op, answer⟩ => Along answers (History.lefts now) ⟨op, answer⟩
  | ⟨.inr op, answer⟩ => spent wholeChunk (History.rights now ++ [⟨op, answer⟩]) ≤ chunks

section Linked

variable {answers : List (Option UInt8)} {chunks : Nat} {high : History Calls} {low now : History Port} {pktBuf : XmodemPacket}
  {α : Type}

variable (answers chunks) in
/-- What the calls of the program have cost has come on the line or from standard input. -/
structure Linked (high : History Calls) (low : History Port) : Prop where
  heard : Arrive (silentAfter answers) 0 (outcomes (History.lefts low))
  paid : spent intake high ≤ arrivals (outcomes (History.lefts low)) + spent wholeChunk (History.rights low)
  chunks : spent wholeChunk (History.rights low) ≤ chunks
  calls : ∀ event ∈ high, Aside event.op → event ∈ History.rights low

theorem Linked.affordable {event : Event Calls} (linked : Linked answers chunks (high ++ [event]) low) :
    Affordable intake (arrivals answers + chunks) high event := by
  have few := linked.heard.arrivals_le
  have paid := linked.paid
  have less := linked.chunks
  rw [Affordable]
  omega

theorem Linked.talks {event : Event Calls} {part : History Io} (linked : Linked answers chunks high low)
    (heard : Arrive (silentAfter answers) 0 (outcomes (History.lefts low ++ part))) (talks : ¬Aside event.op)
    (paid : intake event ≤ arrivals (outcomes part)) :
    Linked answers chunks (high ++ [event]) (low ++ part.map Event.left) where
  heard := by simpa using heard
  paid := by
    have before := linked.paid
    simp only [spent_append, spent_singleton, History.lefts_append, History.lefts_left, outcomes_append, arrivals_append,
      History.rights_append, History.rights_left, List.append_nil]
    omega
  chunks := by simpa using linked.chunks
  calls := by
    intro found member aside
    obtain early | last := List.mem_append.mp member
    · simpa using linked.calls found early aside
    · rw [List.mem_singleton.mp last] at aside
      exact absurd aside talks

theorem Linked.aside {event : Event Calls} (linked : Linked answers chunks high low) (aside : Aside event.op)
    (few : spent wholeChunk (History.rights low ++ [event]) ≤ chunks) :
    Linked answers chunks (high ++ [event]) (low ++ [event.right]) where
  heard := by simpa using linked.heard
  paid := by
    have before := linked.paid
    have same : intake event = wholeChunk event := by
      obtain ⟨op, answer⟩ := event
      cases op with
      | send data => exact absurd rfl (aside.1 data)
      | _ => rfl
    simp only [spent_append, spent_singleton, same, History.lefts_append, History.lefts_right, List.append_nil,
      History.rights_append, History.rights_right]
    omega
  chunks := by simpa using few
  calls := by
    intro found member _
    rw [History.rights_append, History.rights_right]
    obtain early | last := List.mem_append.mp member
    · by_cases aside : Aside found.op
      · exact List.mem_append_left _ (linked.calls found early aside)
      · contradiction
    · exact List.mem_append_right _ last

/-- Code on the line, ended on the line alone. -/
theorem onLine_ends {code : Xmodem.Code α} {stopped : History Io → Prop} {halted : History Port → Prop}
    {finished : α × XmodemPacket → History Io → Prop}
    (ends : Ends (Along answers) stopped finished (History.lefts low) (code.run pktBuf)) (never : ∀ now, ¬stopped now) :
    Ends (FiniteInput answers chunks) halted (fun result now => ∃ part, now = low ++ part.map Event.left ∧
      finished result (History.lefts low ++ part)) low ((onLine code).run pktBuf) := by
  have narrows (part : History Io) (event : Event Io)
      (allowed : FiniteInput answers chunks (low ++ part.map Event.left) event.left) :
      Along answers (History.lefts low ++ part) event := by
    have along : Along answers (History.lefts (low ++ part.map Event.left)) event := allowed
    rwa [History.lefts_append, History.lefts_left] at along
  apply (ends.left narrows).sharpen
  · intro later _ _ done
    obtain ⟨part, _, impossible⟩ := done
    exact absurd impossible (never _)
  · exact fun _ _ _ _ done => done

theorem transport_carries (op : Op) (linked : Linked answers chunks high low) :
    Ends (FiniteInput answers chunks) (fun now => Stopped (History.rights now)) (fun result now =>
      Affordable intake (arrivals answers + chunks) high ⟨op, result.1⟩ ∧ Linked answers chunks (high ++ [⟨op, result.1⟩]) now)
      low ((transport op).run pktBuf) := by
  have performs (aside : Aside op) (same : transport op = Static.perform (S := Port) (.inr op)) :
      Ends (FiniteInput answers chunks) (fun now => Stopped (History.rights now)) (fun result now =>
        Affordable intake (arrivals answers + chunks) high ⟨op, result.1⟩ ∧ Linked answers chunks (high ++ [⟨op, result.1⟩]) now)
        low ((transport op).run pktBuf) := by
    rw [same]
    apply Ends.call
    intro answer allowed
    have few : spent wholeChunk (History.rights low ++ [⟨op, answer⟩]) ≤ chunks := allowed
    have next := linked.aside aside few
    exact .ret ⟨next.affordable, next⟩
  cases op with
  | send data =>
    apply (onLine_ends (transmission_ends data pktBuf linked.heard) fun _ => id).imp
    intro result now done
    obtain ⟨part, rfl, found, same, heard, success⟩ := done
    obtain rfl := List.append_cancel_left same
    have paid : intake ⟨.send data, result.1⟩ ≤ arrivals (outcomes part) := by
      by_cases failed : result.1 < 0
      · rw [intake, if_pos failed]
        exact Nat.zero_le _
      · rw [intake, if_neg failed]
        exact success failed
    have next := linked.talks heard (fun aside => aside.1 data rfl) paid
    exact ⟨next.affordable, next⟩
  | receive qdaBuf =>
    have small : qdaBuf.bytes.length ≤ 2 ^ 31 := by
      rw [qdaBuf.size]
      decide
    have ends : Ends (Along answers) (fun _ => False) (fun _ now => ∃ part, now = History.lefts low ++ part ∧
        Arrive (silentAfter answers) 0 (outcomes now)) (History.lefts low) ((dfuUtilQdaReceive qdaBuf).run pktBuf) := by
      rw [dfuUtilQdaReceive]
      exact (reception_ends qdaBuf.bytes pktBuf small linked.heard).seq fun _ _ _ done => .ret done
    apply (onLine_ends ends fun _ => id).imp
    intro result now done
    obtain ⟨part, rfl, found, same, heard⟩ := done
    obtain rfl := List.append_cancel_left same
    have paid : intake ⟨.receive qdaBuf, result.1⟩ ≤ arrivals (outcomes part) := Nat.zero_le _
    have next := linked.talks heard (fun aside => aside.2 qdaBuf rfl) paid
    exact ⟨next.affordable, next⟩
  | _ => exact performs ⟨by simp, by simp⟩ rfl

/-- Whatever the other end of the line does, the program ends once the line falls silent: it
returns, or it has called `exit` or broken a rule of C. -/
theorem main_ends_on_line (answers : List (Option UInt8)) (chunks : Nat) (pageSize : Option Int) (root : QdaIf) (argv : List Opt)
    (qdaBuf : QdaBuf) (pktBuf : XmodemPacket) :
    Ends (FiniteInput answers chunks) (fun now => Stopped (History.rights now)) (fun _ _ => True) []
      ((mainOnLine pageSize root argv qdaBuf).run pktBuf) := by
  have ends : Ends (Affordable intake (arrivals answers + chunks)) Stopped (fun _ _ => True) []
      ((main pageSize root argv).run qdaBuf) := by
    apply (comes_main pageSize root argv (Nat.zero_le _) [] qdaBuf rfl).imp
    exact fun _ _ _ => trivial
  have begins : Linked answers chunks [] [] := ⟨by simp [Arrive], by simp [spent], by simp [spent], by simp⟩
  apply (ends.handle (fun high low _ => Linked answers chunks high low)
    (fun high low held op linked => transport_carries op linked) ?_ begins).imp
  · exact fun _ _ _ => trivial
  · intro high low _ linked stopped calm
    apply stopped
    intro event member
    by_cases aside : Aside event.op
    · exact calm event (linked.calls event member aside)
    · obtain ⟨op, answer⟩ := event
      cases op with
      | send | receive => simp
      | _ => exact absurd ⟨by simp, by simp⟩ aside

end Linked

end DfuUtilQda.Host

import DfuUtilQda.Proofs.ReceptionRuns

/-! The bytes and timeouts that arrive determine the session: which readings the
receiver makes of them and which frames it accepts. -/

namespace DfuUtilQda.Xmodem
open Interaction Machine

theorem same_history {α : Type} {program : Program Io α} {first second : History Io} {value found : α}
    {rest more : List (Option UInt8)} (one : Runs program first (.ret value)) (other : Runs program second (.ret found))
    (same : outcomes first ++ rest = outcomes second ++ more) : first = second ∧ value = found := by
  generalize ends : Program.ret value = final at one
  induction one generalizing second with
  | here =>
    subst ends
    obtain ⟨rfl, rfl⟩ := (runs_ret _ _).mp other
    exact ⟨rfl, rfl⟩
  | @call op next answer history final later ih =>
    obtain ⟨given, after, rfl, run⟩ := (runs_call _ _ _).mp other
    -- Only what was read can differ; the other operations answer nothing.
    have agree : answer = given ∧ outcomes history ++ rest = outcomes after ++ more := by
      cases op with
      | getc => exact List.cons_eq_cons.mp same
      | putc | setTimeout | fault => exact ⟨rfl, same⟩
    obtain ⟨rfl, tail⟩ := agree
    obtain ⟨rfl, rfl⟩ := ih run tail ends
    exact ⟨rfl, rfl⟩
  | loop _ ih =>
    cases other with
    | loop run => exact ih run same ends

/-- An execution that cannot go on has done all that one hearing the same can do. -/
theorem covers_history {α : Type} {program final rest : Program Io α} {first second : History Io}
    {unheard more : List (Option UInt8)} (one : Runs program first final)
    (ends : ∀ event later rest, ¬Runs final (event :: later) rest) (other : Runs program second rest)
    (same : outcomes first ++ unheard = outcomes second ++ more) : second <+: first := by
  induction one generalizing second with
  | here =>
    cases second with
    | nil => exact List.nil_prefix
    | cons event second => exact absurd other (ends event second rest)
  | @call op next answer history final later ih =>
    cases other with
    | here => exact List.nil_prefix
    | @call _ _ given after _ run =>
      have agree : answer = given ∧ outcomes history ++ unheard = outcomes after ++ more := by
        cases op with
        | getc => exact List.cons_eq_cons.mp same
        | putc | setTimeout | fault => exact ⟨rfl, same⟩
      obtain ⟨rfl, tail⟩ := agree
      exact List.prefix_cons_inj _ |>.mpr (ih ends run tail)
  | loop _ ih =>
    cases other with
    | here => exact List.nil_prefix
    | loop run => exact ih ends run same

theorem ReadsPkt.unique {expSeqNo : UInt8} {len : Nat} {heard listened rest more : List (Option UInt8)}
    {status verdict : Status} {new found : List Frame} (one : ReadsPkt expSeqNo len heard status new)
    (other : ReadsPkt expSeqNo len listened verdict found) (same : heard ++ rest = listened ++ more) :
    heard = listened ∧ status = verdict ∧ new = found := by
  have fits (room : packetPayloadSize ≤ len) :
      (0 : Int) ≤ 0 ∧ (0 : Int) + packetPayloadSize ≤ (List.replicate len (0 : UInt8)).length := by
    rw [List.length_replicate]
    omega
  obtain ⟨first, _, _, run, rfl, _, _⟩ := one.occurs (fun _ => fits) .blank
  obtain ⟨second, _, _, again, rfl, _, _⟩ := other.occurs (fun _ => fits) .blank
  obtain ⟨rfl, ends⟩ := same_history run again same
  obtain rfl : status = verdict := congrArg (fun result => result.1.1) ends
  refine ⟨rfl, rfl, ?_⟩
  by_cases accepted : status = .soh
  · subst accepted
    obtain ⟨frame, rfl, bytes, _⟩ := one.taken_one
    obtain ⟨_, rfl, others, _⟩ := other.taken_one
    rw [Frame.ext_bytes (List.map_injective_iff.mpr (fun _ _ => Option.some.inj) (bytes.symm.trans others))]
  · rw [one.taken_nil accepted, other.taken_nil accepted]

theorem ReadsPkt.heard_ne_nil {expSeqNo : UInt8} {len : Nat} {heard : List (Option UInt8)} {status : Status}
    {new : List Frame} (read : ReadsPkt expSeqNo len heard status new) : heard ≠ [] := by
  have nonempty (frame : Frame) : frame.bytes.map some ≠ [] := by
    intro empty
    have size := frame.size
    rw [List.map_eq_nil_iff.mp empty] at size
    cases size
  cases read with
  | refused frame => exact nonempty frame
  | taken frame => exact nonempty frame
  | _ => simp

namespace Session

variable {room : Nat} {readings others : List Reading} {taken found : List Frame}

theorem taken_unique (one : Session room readings taken) (other : Session room readings found) : taken = found := by
  have same := one.accepted.symm.trans other.accepted
  refine List.map_injective_iff.mpr (fun frame rival equal => ?_) same
  exact Frame.ext_bytes (List.map_injective_iff.mpr (fun _ _ => Option.some.inj) equal)

theorem at_reading (session : Session room readings taken) {before after : List Reading} {reading : Reading}
    (split : readings = before ++ reading :: after) :
    ∃ accepted new, Session room before accepted ∧
      ReadsPkt (UInt8.ofNat (accepted.length + 1)) (room - packetPayloadSize * accepted.length)
        reading.heard reading.status new ∧ reading.reply = replyTo (accepted ++ new).length reading.status := by
  induction session generalizing after with
  | opened => simp at split
  | @read readings taken heard status new earlier _ _ next ih =>
    rcases List.eq_nil_or_concat after with rfl | ⟨front, last, rfl⟩
    · obtain ⟨rfl, same⟩ := List.append_inj' split rfl
      cases same
      exact ⟨taken, new, earlier, next, rfl⟩
    · rw [List.concat_eq_append, ← List.cons_append, ← List.append_assoc] at split
      exact ih (List.append_inj' split rfl).1

theorem comparable (one : Session room readings taken) (other : Session room others found)
    {rest more : List (Option UInt8)}
    (same : readings.flatMap Reading.heard ++ rest = others.flatMap Reading.heard ++ more) :
    readings <+: others ∨ others <+: readings := by
  induction one generalizing rest with
  | opened => exact Or.inl List.nil_prefix
  | @read readings taken heard status new earlier _ _ next ih =>
    rw [List.flatMap_append, List.append_assoc] at same
    rcases ih same with ⟨tail, rfl⟩ | shorter
    · cases tail with
      | nil => exact Or.inr (by simp)
      | cons reading tail =>
        obtain ⟨accepted, fresh, before, read, reply⟩ := other.at_reading rfl
        obtain rfl := before.taken_unique earlier
        have here : heard ++ rest = reading.heard ++ (tail.flatMap Reading.heard ++ more) := by simpa using same
        obtain ⟨equal, verdict, frames⟩ := next.unique read here
        refine Or.inl ⟨tail, ?_⟩
        obtain ⟨_, _, _⟩ := reading
        cases equal
        cases verdict
        cases frames
        rw [List.append_assoc, ← reply]
        rfl
    · exact Or.inr (shorter.trans (List.prefix_append _ _))

theorem unique (one : Session room readings taken) (other : Session room others found)
    (same : readings.flatMap Reading.heard = others.flatMap Reading.heard) : readings = others ∧ taken = found := by
  -- A reading too many would have heard something more.
  have whole {short long : List Reading} {frames : List Frame} (session : Session room long frames)
      (heard : short.flatMap Reading.heard = long.flatMap Reading.heard) (front : short <+: long) : short = long := by
    obtain ⟨tail, rfl⟩ := front
    cases tail with
    | nil => rw [List.append_nil]
    | cons reading tail =>
      obtain ⟨_, _, _, read, _⟩ := session.at_reading rfl
      have silent : [] = reading.heard ++ tail.flatMap Reading.heard :=
        List.append_cancel_left (by simpa only [List.append_nil, List.flatMap_append, List.flatMap_cons] using heard)
      exact absurd (List.append_eq_nil_iff.mp silent.symm).1 read.heard_ne_nil
  have equal : readings = others := by
    have joined : readings.flatMap Reading.heard ++ [] = others.flatMap Reading.heard ++ [] := by simpa using same
    rcases one.comparable other joined with front | front
    · exact whole other same front
    · exact (whole one same.symm front).symm
  subst equal
  exact ⟨rfl, one.taken_unique other⟩

end Session

end DfuUtilQda.Xmodem

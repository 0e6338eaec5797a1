import DfuUtilQda.Dfu.Main
import DfuUtilQda.Proofs.FileParse
import DfuUtilQda.Proofs.LoadingEnds

/-! Firmware from standard input. It is read in chunks into a block that grows, and
what comes of it is what comes of the same bytes in a file with a name. -/

namespace DfuUtilQda.Dfu
open Interaction Machine Qda Host

/-- The number of bytes a read asks for. -/
def wanted : Op → Option Nat
  | .fread size => some size
  | .read _ size => some size
  | _ => none

def gain : Event Calls → Nat
  | ⟨.fread _, chunk⟩ => chunk.val.length
  | ⟨.read _ _, some bytes⟩ => bytes.val.length
  | _ => 0

/-- The number of bytes that have been read, each read behind the one before it. -/
def gained (now : History Calls) : Nat := (now.map gain).sum

def resized (size : Nat) : Op → Nat
  | .malloc fresh => fresh
  | .realloc fresh => fresh
  | _ => size

/-- The size of the block that holds the firmware. -/
def allocated (now : History Calls) : Nat := now.foldl (fun size event => resized size event.op) 0

/-- No read could have stored a byte behind the end of the block. -/
def Inside (now : History Calls) : Prop := ∀ before event after size, now = before ++ event :: after →
  wanted event.op = some size → gained before + size ≤ allocated before

section Room

variable {contents : List UInt8} {now later : History Calls} {held : QdaBuf} {file : DfuFile} {event : Event Calls}

theorem gained_snoc : gained (now ++ [event]) = gained now + gain event := by simp [gained]

theorem allocated_snoc : allocated (now ++ [event]) = resized (allocated now) event.op := by
  rw [allocated, List.foldl_append]
  rfl

theorem Inside.nil : Inside [] := by
  intro before event after size parts
  simp at parts

theorem Inside.snoc (inside : Inside now) (room : ∀ size, wanted event.op = some size → gained now + size ≤ allocated now) :
    Inside (now ++ [event]) := by
  intro before found after size parts asks
  obtain rfl | ⟨front, last, rfl⟩ := List.eq_nil_or_concat' after
  · obtain ⟨rfl, same⟩ := List.append_inj' parts rfl
    cases same
    exact room size asks
  · have longer : now ++ [event] = (before ++ found :: front) ++ [last] := by simpa using parts
    obtain ⟨same, _⟩ := List.append_inj' longer rfl
    exact inside before found front size same asks

theorem Inside.aside (inside : Inside now) (other : wanted event.op = none) : Inside (now ++ [event]) := by
  apply inside.snoc
  intro size asks
  rw [other] at asks
  cases asks

theorem gained_remaining (supplies : Supplies contents now) : gained now + (remaining contents now).length = contents.length := by
  induction now generalizing contents with
  | nil => simp [gained, remaining]
  | cons event now ih =>
    obtain ⟨first, more⟩ := supplies
    have rest := ih more
    have counted : gain event + (unread contents event).length = contents.length := by
      obtain ⟨op, answer⟩ := event
      cases op with
      | fread size =>
        have delivered : answer.val = contents.take size := first
        simp only [gain, unread, delivered, List.length_take, List.length_drop]
        omega
      | read fd size =>
        obtain ⟨chunk, rfl, delivered⟩ := first
        simp only [gain, unread, delivered, List.length_take, List.length_drop]
        omega
      | _ => exact Nat.zero_add _
    rw [gained, List.map_cons, List.sum_cons, Nat.add_assoc]
    change gain event + (gained now + (remaining (unread contents event) now).length) = contents.length
    rw [rest, counted]

theorem AtChunk.total {state : DfuFile × Int} (head : AtChunk contents file state now) (supplies : Supplies contents now) :
    state.1.total = gained now := by
  obtain ⟨calm, ⟨got, spare, parts, holding, filled⟩, ended⟩ := head
  have all := gained_remaining supplies
  have length := congrArg List.length parts
  rw [List.length_append] at length
  rw [holding]
  change (got.length : Int) = gained now
  omega

theorem wp_inside {α : Type} {program : Program Calls α} (performs : program.Performs fun op => wanted op = none)
    (inside : Inside now) : wp (fun later => Supplies contents later → Inside later) program
      (fun _ later => Supplies contents later → Inside later) now :=
  (performs.wp (fun _ _ other kept => kept.aside other) inside).mono (fun _ safe _ => safe) fun _ _ safe _ _ => safe

theorem stdinRound_inside (short : contents.length < 2 ^ 31) {state : DfuFile × Int} (head : AtChunk contents file state now)
    (supplies : Supplies contents now) (inside : Inside now) :
    wp (fun later => Supplies contents later → Inside later) ((stdinRound state).run held)
      (fun _ later => Supplies contents later → Inside later) now := by
  simp only [stdinRound]
  by_cases full : state.2 = stdinChunkSize
  · rw [if_pos full]
    apply wp_supply inside
    intro answer success
    have grown : Inside (now ++ [⟨.realloc _, answer⟩]) := inside.aside rfl
    refine ⟨grown, ?_⟩
    cases answer with
    | none => exact absurd rfl success
    | some fresh =>
      apply wp_supply grown
      intro chunk _
      have read : Inside (now ++ [⟨.realloc _, some fresh⟩] ++ [⟨.fread stdinChunkSize, chunk⟩]) := by
        apply grown.snoc
        intro size asks
        cases asks
        have all := gained_remaining supplies
        rw [gained_snoc, allocated_snoc]
        change gained now + 0 + stdinChunkSize ≤ toSize (toInt (state.1.total + stdinChunkSize))
        rw [head.total supplies, Nat.add_zero]
        exact (grown_room (by omega)).1
      refine ⟨read, ?_⟩
      split
      · exact wp_inside ⟨rfl, fun _ => trivial⟩ read
      · exact wp_inside trivial read
  · rw [if_neg full]
    exact wp_inside trivial inside

theorem readStdin_inside (short : contents.length < 2 ^ 31) :
    wp (fun later => Supplies contents later → Inside later) ((readStdin file).run held)
      (fun _ later => Supplies contents later → Inside later) [] := by
  rw [readStdin]
  apply wp_malloc Inside.nil
  intro block
  have started : Inside ([] ++ [⟨.malloc (toSize stdinChunkSize), some block⟩]) := Inside.nil.aside rfl
  refine ⟨started, ?_⟩
  apply wp_supply started
  intro chunk delivered
  have delivered : chunk.val = contents.take stdinChunkSize := delivered
  have room : toSize stdinChunkSize = stdinChunkSize := toSize_nat (by decide)
  have read : Inside ([⟨.malloc (toSize stdinChunkSize), some block⟩] ++ [⟨.fread stdinChunkSize, chunk⟩]) := by
    apply started.snoc
    intro size asks
    cases asks
    change 0 + stdinChunkSize ≤ toSize stdinChunkSize
    omega
  have calm : Undisturbed ([⟨.malloc (toSize stdinChunkSize), some block⟩] ++ [⟨.fread stdinChunkSize, chunk⟩]) := by
    simp [Undisturbed]
  refine ⟨read, ?_⟩
  apply wp_supplied_loop (fun state later => AtChunk contents file state later ∧ Inside later)
  · exact fun _ => ⟨first_chunk calm rfl (block.2.trans room) delivered, read⟩
  · intro state vars later supplies both
    obtain ⟨head, inside⟩ := both
    refine ((stdinRound_spec short head).and (stdinRound_inside short head supplies inside)).mono (fun _ safe => safe.2) ?_
    intro outcome now _ result supplies
    obtain ⟨next | final, kept⟩ := outcome
    · exact ⟨result.1 supplies, result.2 supplies⟩
    · exact result.2 supplies

theorem readNamed_inside :
    wp (fun later => Supplies contents later → Inside later) ((readNamed file).run held)
      (fun _ later => Supplies contents later → Inside later) [] := by
  have fails {α : Type} : Static.Performs (fun op => wanted op = none) (Host.exit exIoerr : Host.Code α) := performs_exit rfl
  rw [readNamed]
  apply wp_supply Inside.nil
  intro f opened
  have inside : Inside [⟨.openRead file.name, f⟩] := Inside.nil.aside rfl
  refine ⟨inside, ?_⟩
  split
  · exact wp_inside (fails held) inside
  apply wp_supply inside
  intro offset sized
  have inside := @Inside.aside _ ⟨.seekEnd f, offset⟩ inside rfl
  refine ⟨inside, ?_⟩
  split
  · exact wp_inside (fails held) inside
  apply wp_supply inside
  intro start rewound
  have inside := @Inside.aside _ ⟨.seekStart f, start⟩ inside rfl
  refine ⟨inside, ?_⟩
  split
  · exact wp_inside (fails held) inside
  apply wp_malloc inside
  intro block
  have inside := @Inside.aside _ ⟨.malloc (toSize (toInt offset)), some block⟩ inside rfl
  refine ⟨inside, ?_⟩
  apply wp_supply inside
  intro bytes _
  have room : ∀ size, wanted (.read f (toSize (toInt offset))) = some size → 0 + size ≤ toSize (toInt offset) := by
    intro size asks
    cases asks
    omega
  have inside := @Inside.snoc _ ⟨.read f (toSize (toInt offset)), bytes⟩ inside room
  refine ⟨inside, ?_⟩
  cases bytes with
  | none => exact wp_inside (fails held) inside
  | some bytes =>
    dsimp only
    split
    · exact wp_inside (fails held) inside
    · exact wp_inside ⟨rfl, fun _ => trivial⟩ inside

theorem dfuLoadFile_inside (short : contents.length < 2 ^ 31) {verbose : Nat} {checkSuffix : SuffixReq} {checkPrefix : PrefixReq} :
    wp (fun later => Supplies contents later → Inside later) ((dfuLoadFile verbose file checkSuffix checkPrefix).run held)
      (fun _ later => Supplies contents later → Inside later) [] := by
  have checked {reading : Host.Code DfuFile} {needed : SuffixReq}
      (read : wp (fun later => Supplies contents later → Inside later) (reading.run held)
        (fun _ later => Supplies contents later → Inside later) []) :
      wp (fun later => Supplies contents later → Inside later)
        ((reading >>= fun file => checkFile verbose file needed checkPrefix).run held)
        (fun _ later => Supplies contents later → Inside later) [] := by
    rw [StateT.run_bind, wp_seq]
    refine read.imp ?_
    intro result now _ inside
    by_cases supplies : Supplies contents now
    · exact wp_inside (checkFile_performs (fun _ _ => rfl) (fun _ => rfl) result.2) (inside supplies)
    · exact wp_failed supplies
  unfold dfuLoadFile
  by_cases stdin : file.name = "-"
  · simp only [if_pos stdin]
    exact checked (readStdin_inside short)
  · simp only [if_neg stdin]
    exact checked readNamed_inside

end Room

/-- The same file under another name, and in another block of memory. -/
def DfuFile.moved (file : DfuFile) (name : String) (firmware : List UInt8) : DfuFile := { file with name, firmware }

section Moved

variable {contents spare : List UInt8} {file : DfuFile} {name : String}

theorem parseSuffix_moved : parseSuffix ((file.moved name (contents ++ spare)).holding contents spare) =
    (parseSuffix (file.holding contents [])).map fun found => (found.1, found.2.moved name (contents ++ spare)) := by
  by_cases suffix : HasSuffix contents
  · rw [parseSuffix_some suffix, parseSuffix_some suffix]
    by_cases little : (suffixLength contents : Int) < dfuSuffixLength
    · rw [if_pos little, if_pos little]
      rfl
    · rw [if_neg little, if_neg little]
      by_cases much : (suffixLength contents : Int) > contents.length
      · rw [if_pos much, if_pos much]
        rfl
      · rw [if_neg much, if_neg much]
        rfl
  · rw [parseSuffix_none suffix, parseSuffix_none suffix]
    rfl

theorem probePrefix_moved (bytes : file.firmware = contents) (total : file.total = contents.length) :
    probePrefix (file.moved name (contents ++ spare)) =
      ((probePrefix file).1, (probePrefix file).2.moved name (contents ++ spare)) := by
  have eight : (lmdfuPrefixLength : Int) = 8 := rfl
  unfold probePrefix
  by_cases tiny : file.total < lmdfuPrefixLength
  · rw [if_pos tiny]
    exact if_pos tiny
  · have same {index : Nat} (inside : index < contents.length) :
        (file.moved name (contents ++ spare)).byte index = file.byte index := by
      rw [contents_byte rfl inside, contents_byte (bytes.trans (List.append_nil _).symm) inside]
    have first := same (show 0 < contents.length by omega)
    have second := same (show 1 < contents.length by omega)
    have third := same (show 2 < contents.length by omega)
    have fourth := same (show 3 < contents.length by omega)
    rw [if_neg tiny]
    refine (if_neg tiny).trans ?_
    simp only [Nat.cast_zero, Nat.cast_one, Nat.cast_ofNat] at first second third fourth
    simp only [first, second, third, fourth]
    by_cases stellaris : file.byte 0 = 0x01 ∧ file.byte 1 = 0x00
    · simp only [if_pos stellaris]
      rfl
    · simp only [if_neg stellaris]
      by_cases nxp : file.byte 0 &&& 0x3f = 0x1a ∧ file.byte 1 &&& 0x3f = 0x3f
      · simp only [if_pos nxp]
        rfl
      · simp only [if_neg nxp]
        rfl

theorem parseSuffix_holds {missing : Bool} {parsed : DfuFile} (found : parseSuffix file = .ok (missing, parsed)) :
    parsed.firmware = file.firmware ∧ parsed.total = file.total := by
  unfold parseSuffix at found
  dsimp only at found
  repeat' split at found
  all_goals cases found
  all_goals exact ⟨rfl, rfl⟩

/-- The checks see the contents, and nothing of where they have come from. -/
theorem examine_moved {checkSuffix : SuffixReq} {checkPrefix : PrefixReq} :
    examine ((file.moved name (contents ++ spare)).holding contents spare) checkSuffix checkPrefix =
      (examine (file.holding contents []) checkSuffix checkPrefix).map fun loaded => loaded.moved name (contents ++ spare) := by
  unfold examine
  rw [parseSuffix_moved]
  cases found : parseSuffix (file.holding contents []) with
  | error code => rfl
  | ok found_ =>
    obtain ⟨missing, parsed⟩ := found_
    obtain ⟨bytes, total⟩ := parseSuffix_holds found
    have probed := @probePrefix_moved contents spare parsed name (bytes.trans (List.append_nil contents)) total
    simp only [Except.map, probed]
    by_cases needed : missing = true ∧ checkSuffix = .needs
    · rw [if_pos needed, if_pos needed]
    · rw [if_neg needed, if_neg needed]
      by_cases unwanted : missing = false ∧ checkSuffix = .no
      · rw [if_pos unwanted, if_pos unwanted]
      · rw [if_neg unwanted, if_neg unwanted]
        by_cases absent : ((probePrefix parsed).1 = true ∨ (probePrefix parsed).2.prefixSize = 0) ∧ checkPrefix = .needs
        · rw [if_pos absent]
          exact if_pos absent
        · rw [if_neg absent]
          refine (if_neg absent).trans ?_
          by_cases present : (probePrefix parsed).2.prefixSize ≠ 0 ∧ checkPrefix = .no
          · rw [if_pos present]
            exact if_pos present
          · rw [if_neg present]
            exact if_neg present

theorem examined_moved {checkPrefix : PrefixReq} : examined { file with name } .maybe checkPrefix contents spare =
    (examine (file.unread.holding contents []) .maybe checkPrefix).map fun loaded => loaded.moved name (contents ++ spare) := by
  have either : required { file with name } .maybe = .maybe := ite_self _
  rw [examined, either]
  exact @examine_moved contents spare file.unread name .maybe checkPrefix

end Moved

/-- The file was refused, with the exit code of the outcome. -/
def Declines (outcome : Except Nat DfuFile) (now : History Calls) : Prop := ∃ code, outcome = .error code ∧ Declined code now

/-- A program that loads a file comes to this outcome, of which only the name and the block that holds the contents are its own. -/
structure Loads (contents : List UInt8) (outcome : Except Nat DfuFile) (name : String)
    (program : Program Calls (DfuFile × QdaBuf)) : Prop where
  ends : Ends (Supplying contents) (Declines outcome) (fun result _ => ∃ loaded spare, outcome = .ok loaded ∧
    result.1 = { loaded with name, firmware := contents ++ spare }) [] program
  goes : ∀ now rest, Supplies contents now → Runs program now rest → Undisturbed now ∨ Declines outcome now
  inside : ∀ now rest, Supplies contents now → Runs program now rest → Inside now
  onward : ∀ now rest, Supplies contents now → Runs program now rest → ∃ later final,
    Supplies contents (now ++ later) ∧ Runs rest later final ∧ (final = .halt ∨ ∃ value, final = .ret value)

section Stdin

variable {contents : List UInt8} {file : DfuFile} {held : QdaBuf}

theorem readStdin_total (short : contents.length < 2 ^ 31) : Ends (Supplying contents) (fun _ => False)
    (fun result _ => ∃ spare, result.1 = { file with firmware := contents ++ spare, total := contents.length }) []
    ((readStdin file).run held) := by
  apply (readStdin_ends short).sharpen
  · intro now allowed run stopped
    exact stopped ((readStdin_spec short).safe run (permitted_supplies.mp allowed))
  · intro result now allowed run _
    exact ((readStdin_spec short).returns run (permitted_supplies.mp allowed)).2

theorem dfuLoadFile_loads (short : contents.length < 2 ^ 31) {checkPrefix : PrefixReq} {name : String} {verbose : Nat} :
    Loads contents (examine (file.unread.holding contents []) .maybe checkPrefix) name
      ((dfuLoadFile verbose { file with name } .maybe checkPrefix).run held) := by
  have spec := @dfuLoadFile_spec contents held { file with name } verbose .maybe checkPrefix short
  have ends := @dfuLoadFile_ends contents held { file with name } verbose .maybe checkPrefix short
  simp only [examined_moved] at spec
  have goes : ∀ now rest, Supplies contents now → Runs ((dfuLoadFile verbose { file with name } .maybe checkPrefix).run held) now rest →
      Undisturbed now ∨ Declines (examine (file.unread.holding contents []) .maybe checkPrefix) now := by
    intro now rest supplies run
    obtain calm | ⟨spare, code, found, declined⟩ := spec.safe run supplies
    · exact .inl calm
    · cases same : examine (file.unread.holding contents []) .maybe checkPrefix with
      | ok loaded =>
        rw [same] at found
        cases found
      | error other =>
        rw [same] at found
        cases found
        exact .inr ⟨code, rfl, declined⟩
  refine ⟨ends.sharpen ?_ ?_, goes, ?_, ?_⟩
  · intro now allowed run stopped
    exact (goes now _ (permitted_supplies.mp allowed) run).resolve_left stopped
  · intro result now allowed run _
    obtain ⟨spare, _, _, found, _⟩ := spec.returns run (permitted_supplies.mp allowed)
    cases same : examine (file.unread.holding contents []) .maybe checkPrefix with
    | error code =>
      rw [same] at found
      cases found
    | ok loaded =>
      rw [same] at found
      exact ⟨loaded, spare, rfl, (Except.ok.inj found).symm⟩
  · intro now rest supplies run
    exact (dfuLoadFile_inside short).safe run supplies
  · intro now rest supplies run
    exact ends_onward ends supplies run

/-- Firmware read from standard input is the firmware read from a file: the reading ends and has all the contents, no read
goes over the end of the block, and the checks come to the same, whatever the name. -/
theorem stdin_loads_as_file (contents : List UInt8) (short : contents.length < 2 ^ 31 - 65536) :
    (∀ (file : DfuFile) held,
      Ends (Supplying contents) (fun _ => False)
        (fun result _ => ∃ spare, result.1 = { file with firmware := contents ++ spare, total := contents.length }) []
        ((readStdin file).run held) ∧
      ∀ now rest, Supplies contents now → Runs ((readStdin file).run held) now rest → Undisturbed now ∧ Inside now) ∧
    ∀ (file : DfuFile) checkPrefix, ∃ outcome : Except Nat DfuFile,
      (∀ loaded, outcome = .ok loaded → loaded.total = contents.length) ∧
      ∀ name verbose held, Loads contents outcome name ((dfuLoadFile verbose { file with name } .maybe checkPrefix).run held) := by
  have short : contents.length < 2 ^ 31 := by omega
  constructor
  · intro file held
    refine ⟨readStdin_total short, ?_⟩
    intro now rest supplies run
    exact ⟨(readStdin_spec short).safe run supplies, (readStdin_inside short).safe run supplies⟩
  · intro file checkPrefix
    refine ⟨examine (file.unread.holding contents []) .maybe checkPrefix, ?_, ?_⟩
    · intro loaded found
      obtain ⟨missing, parsed, parses, _, _, rfl, _⟩ := examine_ok found
      obtain ⟨prefixType, prefixSize, lmdfuAddress, kept⟩ := probePrefix_keeps parsed
      rw [kept]
      exact (parseSuffix_holds parses).2
    · intro name verbose held
      exact dfuLoadFile_loads short

/-- Three bytes load in the same way from anywhere. -/
theorem three_bytes_from_anywhere : ∃ loaded : DfuFile, loaded.total = 3 ∧ ∀ name, ∃ now spare held, Supplies [1, 2, 3] now ∧
    Runs ((dfuLoadFile 0 (DfuFile.zero name) .maybe .maybe).run QdaBuf.blank) now
      (.ret ({ loaded with name, firmware := [1, 2, 3] ++ spare }, held)) := by
  obtain ⟨outcome, sized, loads⟩ := (stdin_loads_as_file [1, 2, 3] (by decide)).2 (DfuFile.zero "") .maybe
  have ends (name : String) := (loads name 0 QdaBuf.blank).ends.completes fun now => supplied_answerable (remaining [1, 2, 3] now)
  have bare : ¬HasSuffix [1, 2, 3] := fun suffix => absurd suffix.long (by decide)
  have passes : ∃ loaded, outcome = .ok loaded := by
    obtain ⟨now, spare, supplies, result⟩ :=
      @dfuLoadFile_occurs [1, 2, 3] QdaBuf.blank (DfuFile.zero "-") 0 .maybe .maybe (by decide)
    obtain ⟨parsed, _, found⟩ := @examined_occurs [1, 2, 3] spare (DfuFile.zero "-") .maybe (fun _ => by decide)
      (fun suffix => absurd suffix bare)
    rw [found] at result
    obtain ⟨loaded, _, run⟩ | ⟨code, failed, _⟩ := result
    · cases (loads "-" 0 QdaBuf.blank).ends.after run (permitted_supplies.mpr supplies) with
      | ret done =>
        obtain ⟨loaded, _, same, _⟩ := done
        exact ⟨loaded, same⟩
    · cases failed
  obtain ⟨loaded, same⟩ := passes
  refine ⟨loaded, sized loaded same, fun name => ?_⟩
  obtain ⟨now, allowed, ⟨_, code, failed, _⟩ | ⟨⟨result, held⟩, run, found, spare, passed, rfl⟩⟩ := ends name
  · rw [same] at failed
    cases failed
  · rw [same] at passed
    cases passed
    exact ⟨now, spare, held, permitted_supplies.mp allowed, run⟩

end Stdin

end DfuUtilQda.Dfu

import DfuUtilQda.Proofs.FileCalls

/-! Reading a file into memory, from its name or from standard input, on a host
whose calls all succeed: what is in memory then is the contents of the file. -/

namespace DfuUtilQda.Dfu
open Interaction Machine Qda Host

/-- What has not been read yet after an event. -/
def unread (contents : List UInt8) (event : Event Calls) : List UInt8 :=
  match event.op with
  | .read _ size => contents.drop size
  | .fread size => contents.drop size
  | _ => contents

def remaining (contents : List UInt8) (now : History Calls) : List UInt8 := now.foldl unread contents

/-- A call succeeds in full, and reads what comes next. -/
def Supplied (contents : List UInt8) : Event Calls → Prop
  | ⟨.openRead _, file⟩ => 0 ≤ file
  | ⟨.seekEnd _, offset⟩ => offset = contents.length
  | ⟨.seekStart _, offset⟩ => offset = 0
  | ⟨.malloc _, block⟩ => block ≠ none
  | ⟨.realloc _, block⟩ => block ≠ none
  | ⟨.read _ size, bytes⟩ => ∃ chunk, bytes = some chunk ∧ chunk.val = contents.take size
  | ⟨.fread size, chunk⟩ => chunk.val = contents.take size
  | _ => True

/-- All calls so far succeeded, and read from a file with these contents. -/
def Supplies (contents : List UInt8) : History Calls → Prop
  | [] => True
  | event :: later => Supplied contents event ∧ Supplies (unread contents event) later

/-- The program goes on. -/
def Undisturbed (now : History Calls) : Prop := ∀ event ∈ now, (∀ code, event.op ≠ .exit code) ∧ event.op ≠ .fault

def Reads (contents : List UInt8) (now : History Calls) : Prop := Supplies contents now → Undisturbed now

section Histories

variable {contents : List UInt8} {now later : History Calls} {event : Event Calls}

theorem supplies_append : Supplies contents (now ++ later) ↔ Supplies contents now ∧ Supplies (remaining contents now) later := by
  induction now generalizing contents with
  | nil => simp [Supplies, remaining]
  | cons event now ih => rw [List.cons_append, Supplies, Supplies, ih, and_assoc, remaining, remaining, List.foldl_cons]

theorem supplies_snoc : Supplies contents (now ++ [event]) ↔ Supplies contents now ∧ Supplied (remaining contents now) event := by
  rw [supplies_append, Supplies, Supplies, and_true]

theorem remaining_snoc : remaining contents (now ++ [event]) = unread (remaining contents now) event := by
  rw [remaining, List.foldl_append]
  rfl

theorem remaining_append : remaining contents (now ++ later) = remaining (remaining contents now) later := List.foldl_append

theorem Undisturbed.snoc (calm : Undisturbed now) (goes : ∀ code, event.op ≠ .exit code) (sound : event.op ≠ .fault) :
    Undisturbed (now ++ [event]) := by
  intro found member
  obtain earlier | last := List.mem_append.mp member
  · exact calm found earlier
  · rw [List.mem_singleton.mp last]
    exact ⟨goes, sound⟩

end Histories

section Rules

variable {contents : List UInt8} {now : History Calls} {held : QdaBuf} {α β : Type}

theorem wp_failed {fine : History Calls → Prop} {program : Program Calls α} {post : α → History Calls → Prop}
    (failed : ¬Supplies contents now) : wp (fun later => Supplies contents later → fine later) program
      (fun result later => Supplies contents later → post result later) now := by
  intro later rest run
  have still : ¬Supplies contents (now ++ later) := fun supplies => failed (supplies_append.mp supplies).1
  exact ⟨fun supplies => absurd supplies still, fun value _ supplies => absurd supplies still⟩

theorem wp_supply {fine : History Calls → Prop} {op : Op} {rest : Answer op → Host.Code β}
    {post : β × QdaBuf → History Calls → Prop} (safe : fine now)
    (onward : ∀ answer, Supplied (remaining contents now) ⟨op, answer⟩ → fine (now ++ [⟨op, answer⟩]) ∧
      wp (fun later => Supplies contents later → fine later) ((rest answer).run held)
        (fun result later => Supplies contents later → post result later) (now ++ [⟨op, answer⟩])) :
    wp (fun later => Supplies contents later → fine later) ((Host.perform op >>= rest).run held)
      (fun result later => Supplies contents later → post result later) now := by
  rw [StateT.run_bind, wp_seq]
  refine (wp_perform_run _ _ _).mpr ⟨fun _ => safe, fun answer => ?_⟩
  by_cases success : Supplied (remaining contents now) ⟨op, answer⟩
  · exact ⟨fun _ => (onward answer success).1, (onward answer success).2⟩
  · have failed : ¬Supplies contents (now ++ [⟨op, answer⟩]) := by
      rw [supplies_snoc]
      exact fun supplies => success supplies.2
    exact ⟨fun supplies => absurd supplies failed, wp_failed failed⟩

theorem wp_supplied {op : Op} {rest : Answer op → Host.Code β} {post : β × QdaBuf → History Calls → Prop}
    (calm : Undisturbed now) (goes : ∀ code, op ≠ .exit code) (sound : op ≠ .fault)
    (onward : ∀ answer, Supplied (remaining contents now) ⟨op, answer⟩ → Undisturbed (now ++ [⟨op, answer⟩]) →
      wp (Reads contents) ((rest answer).run held) (fun result later => Supplies contents later → post result later)
        (now ++ [⟨op, answer⟩])) :
    wp (Reads contents) ((Host.perform op >>= rest).run held) (fun result later => Supplies contents later → post result later) now := by
  apply wp_supply calm
  intro answer success
  have still : Undisturbed (now ++ [⟨op, answer⟩]) := calm.snoc goes sound
  exact ⟨still, onward answer success still⟩

theorem wp_supplied_loop {σ : Type} {fine : History Calls → Prop} {body : σ → Host.Code (σ ⊕ β)} {state : σ}
    {post : β × QdaBuf → History Calls → Prop} (invariant : σ → History Calls → Prop) (start : Supplies contents now → invariant state now)
    (round : ∀ state vars now, Supplies contents now → invariant state now →
      wp (fun later => Supplies contents later → fine later) ((body state).run vars)
        (fun outcome later => Supplies contents later → match outcome.1 with
          | .inl next => invariant next later
          | .inr value => post (value, outcome.2) later) now) :
    wp (fun later => Supplies contents later → fine later) ((Static.loop body state).run held)
      (fun result later => Supplies contents later → post result later) now := by
  apply wp.static_loop (fun state _ later => Supplies contents later → invariant state later) start
  intro state vars later holds
  by_cases supplies : Supplies contents later
  · refine (round state vars later supplies (holds supplies)).imp ?_
    intro outcome now _ result
    obtain ⟨next | value, kept⟩ := outcome
    · exact result
    · exact result
  · refine wp.imp (@wp_failed contents later _ fine _ (fun _ _ => False) supplies) ?_
    intro outcome now _ impossible
    obtain ⟨next | value, kept⟩ := outcome
    · exact fun supplies => (impossible supplies).elim
    · exact fun supplies => (impossible supplies).elim

end Rules

/-- A file whose contents have been read. The block that holds them may be longer. -/
def DfuFile.holding (file : DfuFile) (contents spare : List UInt8) : DfuFile :=
  { file with firmware := contents ++ spare, total := contents.length }

section Reading

variable {contents : List UInt8} {now : History Calls} {held : QdaBuf} {file : DfuFile} {α : Type}

theorem wp_malloc {fine : History Calls → Prop} {size : Int} {rest : List UInt8 → Host.Code α}
    {post : α × QdaBuf → History Calls → Prop} (safe : fine now)
    (onward : ∀ block : Block (toSize size), fine (now ++ [⟨.malloc (toSize size), some block⟩]) ∧
      wp (fun later => Supplies contents later → fine later) ((rest block.val).run held)
        (fun result later => Supplies contents later → post result later) (now ++ [⟨.malloc (toSize size), some block⟩])) :
    wp (fun later => Supplies contents later → fine later) ((dfuMalloc size >>= rest).run held)
      (fun result later => Supplies contents later → post result later) now := by
  rw [dfuMalloc, bind_assoc]
  apply wp_supply safe
  intro answer success
  cases answer with
  | none => exact absurd rfl success
  | some block => exact onward block

/-- What has been read has been read from the file, and nothing stopped the program. -/
def Loaded (contents : List UInt8) (file : DfuFile) (result : DfuFile × QdaBuf) (now : History Calls) : Prop :=
  Undisturbed now ∧ ∃ spare, result.1 = file.holding contents spare

theorem readNamed_spec (short : contents.length < 2 ^ 31) :
    wp (Reads contents) ((readNamed file).run held)
      (fun result later => Supplies contents later → Loaded contents file result later) [] := by
  have length : toInt contents.length = contents.length := toInt_of_range (by omega) (by omega)
  have calm : Undisturbed [] := by simp [Undisturbed]
  rw [readNamed]
  apply wp_supplied calm (by simp) (by simp)
  intro f opened calm
  have opened : (0 : Int) ≤ f := opened
  rw [if_neg (Int.not_lt.mpr opened)]
  apply wp_supplied calm (by simp) (by simp)
  intro offset sized calm
  obtain rfl : offset = (contents.length : Int) := sized
  rw [length, if_neg (by omega)]
  apply wp_supplied calm (by simp) (by simp)
  intro start rewound calm
  obtain rfl : start = 0 := rewound
  rw [if_neg (by simp)]
  apply wp_malloc calm
  intro block
  have calm := @Undisturbed.snoc _ ⟨.malloc (toSize contents.length), some block⟩ calm (by simp) (by simp)
  refine ⟨calm, ?_⟩
  apply wp_supplied calm (by simp) (by simp)
  intro answer delivered calm
  have all : toSize contents.length = contents.length := toSize_nat (by omega)
  obtain ⟨chunk, rfl, read⟩ := delivered
  have read : chunk.val = contents.take (toSize contents.length) := read
  have whole : chunk.val = contents := by rw [read, all, List.take_length]
  dsimp only
  rw [if_neg (by rw [whole]; simp)]
  apply wp_supplied calm (by simp) (by simp)
  intro closed _ calm
  refine (wp_pure _).mpr ⟨fun _ => calm, fun _ => ⟨calm, [], ?_⟩⟩
  have stored : patch block.val 0 contents = contents := by
    rw [patch_zero _ _ (by rw [block.2, all]), List.drop_of_length_le (by rw [block.2, all]), List.append_nil]
  rw [whole, stored, DfuFile.holding, List.append_nil]

/-- A part of the contents has been read, the last of it as a chunk; a whole chunk filled the block. -/
structure AtChunk (contents : List UInt8) (file : DfuFile) (state : DfuFile × Int) (now : History Calls) : Prop where
  calm : Undisturbed now
  read : ∃ got spare, contents = got ++ remaining contents now ∧ state.1 = file.holding got spare ∧
    (state.2 = stdinChunkSize → spare = [])
  ended : state.2 ≠ stdinChunkSize → remaining contents now = []

/-- The block has room for another chunk, and no more than that unless its length wraps. -/
theorem grown_room {length : Nat} (short : length < 2 ^ 31) :
    length + stdinChunkSize ≤ toSize (toInt ((length : Int) + stdinChunkSize)) ∧
    (length + stdinChunkSize < 2 ^ 31 → toSize (toInt ((length : Int) + stdinChunkSize)) = length + stdinChunkSize) := by
  have size : stdinChunkSize = 65536 := rfl
  unfold toSize toInt
  omega

theorem chunk_stored {got fresh chunk : List UInt8} (fits : got.length + stdinChunkSize ≤ fresh.length)
    (few : chunk.length ≤ stdinChunkSize) :
    memcpy (patch fresh 0 (got ++ [])) (got.length : Int) chunk = some ((got ++ chunk) ++ (fresh.drop got.length).drop chunk.length) := by
  rw [List.append_nil, patch_zero _ _ (by omega), memcpy, if_pos, Int.toNat_natCast, patch_append, patch_zero, List.append_assoc]
  · rw [List.length_drop]
    omega
  · simp only [List.length_append, List.length_drop]
    omega

theorem stdinRound_spec (short : contents.length < 2 ^ 31) {state : DfuFile × Int} (head : AtChunk contents file state now) :
    wp (Reads contents) ((stdinRound state).run held) (fun outcome later => Supplies contents later → match outcome.1 with
      | .inl next => AtChunk contents file next later
      | .inr result => Loaded contents file (result, outcome.2) later) now := by
  obtain ⟨current, lastRead⟩ := state
  obtain ⟨calm, ⟨got, spare, parts, holding, filled⟩, ended⟩ := head
  dsimp only at holding filled ended
  subst holding
  have size : stdinChunkSize = 65536 := rfl
  simp only [stdinRound]
  by_cases full : lastRead = stdinChunkSize
  · obtain rfl := filled full
    have length := congrArg List.length parts
    rw [List.length_append] at length
    rw [if_pos full]
    apply wp_supplied calm (by simp) (by simp)
    intro answer success calm
    cases answer with
    | none => exact absurd rfl success
    | some fresh =>
      apply wp_supplied calm (by simp) (by simp)
      intro chunk delivered calm
      rw [remaining_snoc] at delivered
      have delivered : chunk.val = (remaining contents now).take stdinChunkSize := delivered
      have few : chunk.val.length = min stdinChunkSize (remaining contents now).length := by
        rw [delivered, List.length_take]
      obtain ⟨room, exact_⟩ := grown_room (show got.length < 2 ^ 31 by omega)
      have fits : got.length + stdinChunkSize ≤ fresh.val.length := fresh.2.symm ▸ room
      have stored := @chunk_stored got fresh.val chunk.val fits (by omega)
      have total : toInt (got.length + chunk.val.length) = (got ++ chunk.val).length := by
        rw [List.length_append, toInt_of_range (by omega) (by omega)]
        exact (Int.natCast_add _ _).symm
      simp only [DfuFile.holding, stored, total]
      refine (wp_pure _).mpr ⟨fun _ => calm, fun _ => ⟨calm, ⟨got ++ chunk.val, _, ?_, rfl, ?_⟩, ?_⟩⟩
      · rw [remaining_snoc, remaining_snoc, List.append_assoc]
        have onward : chunk.val ++ (remaining contents now).drop stdinChunkSize = remaining contents now := by
          rw [delivered, List.take_append_drop]
        rw [show unread (unread (remaining contents now) _) _ = (remaining contents now).drop stdinChunkSize from rfl, onward]
        exact parts
      · intro whole
        dsimp only at whole
        have used : fresh.val.length = got.length + stdinChunkSize := fresh.2.trans (exact_ (by omega))
        rw [List.drop_drop, List.drop_of_length_le (by omega)]
      · intro last
        rw [remaining_snoc, remaining_snoc]
        apply List.drop_eq_nil_of_le
        dsimp only at last
        change (remaining contents now).length ≤ stdinChunkSize
        omega
  · rw [if_neg full]
    have all : got = contents := by
      rw [parts, ended full, List.append_nil]
    subst all
    exact (wp_pure _).mpr ⟨fun _ => calm, fun _ => ⟨calm, spare, rfl⟩⟩

theorem first_chunk {block : List UInt8} {chunk : AtMost stdinChunkSize}
    (calm : Undisturbed (now ++ [⟨.fread stdinChunkSize, chunk⟩])) (fresh : remaining contents now = contents)
    (room : block.length = stdinChunkSize) (delivered : chunk.val = contents.take stdinChunkSize) :
    AtChunk contents file ({ file with firmware := patch block 0 chunk.val, total := chunk.val.length }, chunk.val.length)
      (now ++ [⟨.fread stdinChunkSize, chunk⟩]) := by
  have few : chunk.val.length = min stdinChunkSize contents.length := by
    rw [delivered, List.length_take]
  refine ⟨calm, ⟨chunk.val, block.drop chunk.val.length, ?_, ?_, ?_⟩, ?_⟩
  · rw [remaining_snoc, fresh, delivered]
    exact (List.take_append_drop _ _).symm
  · rw [patch_zero _ _ (by omega)]
    rfl
  · intro whole
    dsimp only at whole
    exact List.drop_of_length_le (by omega)
  · intro last
    rw [remaining_snoc, fresh]
    apply List.drop_eq_nil_of_le
    dsimp only at last
    omega

theorem readStdin_spec (short : contents.length < 2 ^ 31) :
    wp (Reads contents) ((readStdin file).run held)
      (fun result later => Supplies contents later → Loaded contents file result later) [] := by
  have calm : Undisturbed [] := by simp [Undisturbed]
  rw [readStdin]
  apply wp_malloc calm
  intro block
  have calm := @Undisturbed.snoc _ ⟨.malloc (toSize stdinChunkSize), some block⟩ calm (by simp) (by simp)
  refine ⟨calm, ?_⟩
  apply wp_supplied calm (by simp) (by simp)
  intro chunk delivered calm
  have room : block.val.length = stdinChunkSize := by
    rw [block.2]
    exact toSize_nat (by decide)
  apply wp_supplied_loop (AtChunk contents file)
  · exact fun _ => first_chunk calm rfl room delivered
  · intro state vars later _ head
    refine (stdinRound_spec short head).imp ?_
    intro outcome now _ result
    obtain ⟨next | final, kept⟩ := outcome
    · exact result
    · exact result

end Reading

/-- The program has ended with this code. -/
def Exits (code : Nat) (now : History Calls) : Prop := (⟨.exit code, ()⟩ : Event Calls) ∈ now

/-- The program went on until it ended with this code. -/
def Declined (code : Nat) (now : History Calls) : Prop :=
  ∃ before, Undisturbed before ∧ now = before ++ [⟨.exit code, ()⟩]

/-- What is printed of the prefix of a file, if there is one to be printed. -/
def Announces (verbose : Nat) (loaded : DfuFile) (said : History Calls) : Prop :=
  if loaded.prefixSize ≠ 0 ∧ verbose ≠ 0 then
    ∃ found, reportPrefix loaded = Host.perform (.report found) ∧ said = [⟨.report found, ()⟩]
  else said = []

theorem Declined.exits {code : Nat} {now : History Calls} (declined : Declined code now) : Exits code now := by
  obtain ⟨before, _, rfl⟩ := declined
  simp [Exits]

/-- The checks on a file in memory, without what is printed. -/
def examine (file : DfuFile) (checkSuffix : SuffixReq) (checkPrefix : PrefixReq) : Except Nat DfuFile :=
  match parseSuffix file with
  | .error code => .error code
  | .ok (missing, file) =>
    if missing = true ∧ checkSuffix = .needs then .error exIoerr
    else if missing = false ∧ checkSuffix = .no then .error exSoftware
    else
      let (res, file) := probePrefix file
      if (res = true ∨ file.prefixSize = 0) ∧ checkPrefix = .needs then .error exIoerr
      else if file.prefixSize ≠ 0 ∧ checkPrefix = .no then .error exIoerr
      else .ok file

section Checks

variable {contents : List UInt8} {now : History Calls} {held : QdaBuf} {file loaded : DfuFile} {verbose : Nat}
  {checkSuffix : SuffixReq} {checkPrefix : PrefixReq}

theorem checkFile_eq : checkFile verbose file checkSuffix checkPrefix = match examine file checkSuffix checkPrefix with
    | .error code => Host.exit code
    | .ok loaded => do
      if loaded.prefixSize ≠ 0 ∧ verbose ≠ 0 then reportPrefix loaded
      return loaded := by
  unfold checkFile examine
  cases parseSuffix file with
  | error code => rfl
  | ok found =>
    obtain ⟨missing, parsed⟩ := found
    dsimp only
    by_cases needed : missing = true ∧ checkSuffix = .needs
    · rw [if_pos needed, if_pos needed]
    · rw [if_neg needed, if_neg needed]
      by_cases unwanted : missing = false ∧ checkSuffix = .no
      · rw [if_pos unwanted, if_pos unwanted]
      · rw [if_neg unwanted, if_neg unwanted]
        cases probePrefix parsed with
        | mk res probed =>
          dsimp only
          by_cases absent : (res = true ∨ probed.prefixSize = 0) ∧ checkPrefix = .needs
          · rw [if_pos absent, if_pos absent]
          · rw [if_neg absent, if_neg absent]
            by_cases present : probed.prefixSize ≠ 0 ∧ checkPrefix = .no
            · rw [if_pos present, if_pos present]
            · rw [if_neg present, if_neg present]

theorem examine_ok (examined : examine file checkSuffix checkPrefix = .ok loaded) : ∃ missing parsed,
    parseSuffix file = .ok (missing, parsed) ∧ ¬(missing = true ∧ checkSuffix = .needs) ∧
    ¬(missing = false ∧ checkSuffix = .no) ∧ loaded = (probePrefix parsed).2 ∧
    ¬(((probePrefix parsed).1 = true ∨ loaded.prefixSize = 0) ∧ checkPrefix = .needs) ∧
    ¬(loaded.prefixSize ≠ 0 ∧ checkPrefix = .no) := by
  unfold examine at examined
  cases found : parseSuffix file with
  | error code =>
    rw [found] at examined
    cases examined
  | ok parsed =>
    obtain ⟨missing, parsed⟩ := parsed
    rw [found] at examined
    dsimp only at examined
    split at examined
    · cases examined
    next needed =>
      split at examined
      · cases examined
      next unwanted =>
        split at examined
        · cases examined
        next absent =>
          split at examined
          · cases examined
          next present =>
            cases examined
            exact ⟨missing, parsed, rfl, needed, unwanted, rfl, absent, present⟩

theorem parseSuffix_unsized {missing : Bool} {parsed : DfuFile} (found : parseSuffix file = .ok (missing, parsed)) :
    parsed.prefixSize = file.prefixSize := by
  unfold parseSuffix at found
  dsimp only at found
  repeat' split at found
  all_goals cases found
  all_goals rfl

theorem probePrefix_typed (fresh : file.prefixSize = 0) (sized : (probePrefix file).2.prefixSize ≠ 0) :
    (probePrefix file).2.prefixType ≠ .zero := by
  unfold probePrefix at sized ⊢
  split at sized
  · exact absurd fresh sized
  next long =>
    rw [if_neg long]
    dsimp only at sized ⊢
    split
    · simp
    next =>
      split
      · simp
      next other nxp =>
        rw [if_neg other, if_neg nxp] at sized
        exact absurd fresh sized

theorem examine_reports (fresh : file.prefixSize = 0) (examined : examine file checkSuffix checkPrefix = .ok loaded)
    (sized : loaded.prefixSize ≠ 0) : ∃ found, reportPrefix loaded = Host.perform (.report found) := by
  obtain ⟨missing, parsed, parses, _, _, rfl, _⟩ := examine_ok examined
  have typed := probePrefix_typed ((parseSuffix_unsized parses).trans fresh) sized
  unfold reportPrefix
  cases kind : (probePrefix parsed).2.prefixType with
  | zero => exact absurd kind typed
  | lmdfu => exact ⟨_, rfl⟩
  | lpcdfuUnencrypted => exact ⟨_, rfl⟩

theorem checkFile_spec (fresh : file.prefixSize = 0) (calm : Undisturbed now) :
    wp (fun later => Undisturbed later ∨ ∃ code, examine file checkSuffix checkPrefix = .error code ∧ Declined code later)
      ((checkFile verbose file checkSuffix checkPrefix).run held)
      (fun result later => examine file checkSuffix checkPrefix = .ok result.1 ∧
        ∃ said, Announces verbose result.1 said ∧ later = now ++ said) now := by
  rw [checkFile_eq]
  cases examined : examine file checkSuffix checkPrefix with
  | error code => exact (wp_exit _ _ _).mpr ⟨.inl calm, .inr ⟨code, rfl, now, calm, rfl⟩⟩
  | ok loaded =>
    dsimp only
    by_cases told : loaded.prefixSize ≠ 0 ∧ verbose ≠ 0
    · obtain ⟨found, report⟩ := examine_reports fresh examined told.1
      have still : Undisturbed (now ++ [⟨.report found, ()⟩]) := calm.snoc (by simp) (by simp)
      have announced : Announces verbose loaded [⟨.report found, ()⟩] := by
        rw [Announces, if_pos told]
        exact ⟨found, report, rfl⟩
      simp only [if_pos told, report]
      rw [StateT.run_bind, wp_seq]
      refine (wp_perform_run _ _ _).mpr ⟨.inl calm, fun _ => ⟨.inl still, ?_⟩⟩
      exact (wp_pure _).mpr ⟨.inl still, rfl, _, announced, rfl⟩
    · have silent : Announces verbose loaded [] := by rw [Announces, if_neg told]
      simp only [if_neg told]
      exact (wp_pure _).mpr ⟨.inl calm, rfl, [], silent, (List.append_nil now).symm⟩

end Checks

/-- The suffix requirement that counts: none for standard input. -/
def required (file : DfuFile) (checkSuffix : SuffixReq) : SuffixReq := if file.name = "-" then .maybe else checkSuffix

/-- What the checks make of the file with these contents. -/
def examined (file : DfuFile) (checkSuffix : SuffixReq) (checkPrefix : PrefixReq) (contents spare : List UInt8) : Except Nat DfuFile :=
  examine (file.unread.holding contents spare) (required file checkSuffix) checkPrefix

section Load

variable {contents : List UInt8} {held : QdaBuf} {file : DfuFile} {verbose : Nat} {checkSuffix : SuffixReq} {checkPrefix : PrefixReq}

theorem checked_spec {reading : Host.Code DfuFile} {needed : SuffixReq}
    (read : wp (Reads contents) (reading.run held) (fun result later => Supplies contents later →
      Loaded contents file.unread result later) []) :
    wp (fun later => Supplies contents later → Undisturbed later ∨ ∃ spare code,
        examine (file.unread.holding contents spare) needed checkPrefix = .error code ∧ Declined code later)
      ((reading >>= fun file => checkFile verbose file needed checkPrefix).run held)
      (fun result later => Supplies contents later → ∃ spare before said,
        examine (file.unread.holding contents spare) needed checkPrefix = .ok result.1 ∧
        Announces verbose result.1 said ∧ later = before ++ said) [] := by
  rw [StateT.run_bind, wp_seq]
  refine read.mono (fun later calm supplies => .inl (calm supplies)) ?_
  intro result now _ ends later rest run
  by_cases supplies : Supplies contents now
  · obtain ⟨calm, spare, same⟩ := ends supplies
    rw [same] at run
    obtain ⟨goes, done⟩ := checkFile_spec rfl calm later rest run
    constructor
    · intro _
      obtain still | ⟨code, found, ends⟩ := goes
      · exact .inl still
      · exact .inr ⟨spare, code, found, ends⟩
    · intro value final _
      obtain ⟨found, said, announced, parts⟩ := done value final
      exact ⟨spare, now, said, found, announced, parts⟩
  · have failed : ¬Supplies contents (now ++ later) := fun whole => supplies (supplies_append.mp whole).1
    exact ⟨fun whole => absurd whole failed, fun _ _ whole => absurd whole failed⟩

/-- On a host whose calls succeed the program goes on unless a check fails, and what it returns is what the checks make
of the contents. What it prints of the prefix it prints at the end. -/
theorem dfuLoadFile_spec (short : contents.length < 2 ^ 31) :
    wp (fun later => Supplies contents later → Undisturbed later ∨ ∃ spare code,
        examined file checkSuffix checkPrefix contents spare = .error code ∧ Declined code later)
      ((dfuLoadFile verbose file checkSuffix checkPrefix).run held)
      (fun result later => Supplies contents later → ∃ spare before said,
        examined file checkSuffix checkPrefix contents spare = .ok result.1 ∧
        Announces verbose result.1 said ∧ later = before ++ said) [] := by
  unfold dfuLoadFile examined required
  by_cases stdin : file.name = "-"
  · simp only [if_pos stdin]
    exact checked_spec (readStdin_spec short)
  · simp only [if_neg stdin]
    exact checked_spec (readNamed_spec short)

/-- A block with nothing but zeros in it. -/
def blankBlock (size : Nat) : Block size := ⟨List.replicate size 0, List.length_replicate⟩

end Load

end DfuUtilQda.Dfu

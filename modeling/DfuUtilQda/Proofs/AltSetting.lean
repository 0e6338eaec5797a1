import DfuUtilQda.Proofs.DeviceIdentity
import DfuUtilQda.Proofs.FileParse
import DfuUtilQda.Proofs.StatusLoop

/-! The alternate setting, from the command line to the device. The number that the argument is read as
goes through types that are too small for it, and an argument that is no number is one, too. -/

namespace DfuUtilQda.Dfu
open Interaction Machine Qda Host

/-- The argument, all of it, is this number. Of the empty one nothing is converted. -/
def Denotes (optarg : String) (value : Nat) : Prop := optarg ≠ "" ∧ strtoul optarg.toList = (value, [])

/-- The argument is the number of an alternate setting. -/
def Selectable (optarg : String) : Prop := ∃ value, value ≤ 255 ∧ Denotes optarg value

/-- The argument of the last `-a` on the command line. -/
def Given (optarg : String) (argv : List Opt) : Prop :=
  ∃ front back, argv = front ++ .alt optarg :: back ∧ ∀ other, Opt.alt other ∉ back

/-- The command line does not say what to do, or that help is wanted. -/
def Aimless (argv : List Opt) : Prop := ∀ options, readOptions argv = some options → options.mode = .none

/-- The device has been asked for this alternate setting. -/
def Selects (now : History Calls) (alt : UInt8) : Prop := ∃ exchange ∈ dialogue now, exchange.request = setAltRequest alt

/-- The program does as the argument says, and if it says nothing sensible, it fails without a choice. -/
structure Heeds (optarg : String) (now : History Calls) (rest : Program Calls (Int × QdaBuf)) : Prop where
  selected : ∀ alt, Selects now alt → Denotes optarg alt.toNat
  unselected : ¬Selectable optarg → ∀ alt, ¬Selects now alt
  fails : ¬Selectable optarg → (∀ result, rest ≠ .ret result) ∧ (rest = .halt → ∃ code, code ≠ 0 ∧ Exits code now)

/-- What becomes of the argument. -/
def altIndex (optarg : String) : Int :=
  if (strtoul optarg.toList).2 = [] then toInt (strtoul optarg.toList).1 else -1

section CommandLine

variable {options final : Options} {optarg : String} {argv back : List Opt}

theorem take_keeps {opt : Opt} (other : ∀ optarg, opt ≠ .alt optarg) (taken : options.take opt = some final) :
    final.matchIfaceAltIndex = options.matchIfaceAltIndex := by
  cases opt with
  | alt optarg => exact absurd rfl (other optarg)
  | help | unknown => cases taken
  | _ =>
    cases taken
    rfl

theorem options_keep (others : ∀ optarg, Opt.alt optarg ∉ back) (taken : back.foldlM Options.take options = some final) :
    final.matchIfaceAltIndex = options.matchIfaceAltIndex := by
  induction back generalizing options with
  | nil =>
    cases taken
    rfl
  | cons opt back ih =>
    rw [List.foldlM_cons] at taken
    obtain ⟨next, first, rest⟩ := Option.bind_eq_some_iff.mp taken
    rw [ih (fun optarg member => others optarg (List.mem_cons_of_mem _ member)) rest]
    apply take_keeps _ first
    rintro optarg rfl
    exact others optarg List.mem_cons_self

theorem Given.index (given : Given optarg argv) (read : readOptions argv = some options) :
    options.matchIfaceAltIndex = altIndex optarg := by
  obtain ⟨front, back, rfl, others⟩ := given
  rw [readOptions, List.foldlM_append] at read
  obtain ⟨before, _, rest⟩ := Option.bind_eq_some_iff.mp read
  rw [List.foldlM_cons] at rest
  obtain ⟨chosen, taken, after⟩ := Option.bind_eq_some_iff.mp rest
  rw [options_keep others after]
  cases taken
  rfl

theorem altIndex_selectable {value : Nat} (small : value ≤ 255) (denotes : Denotes optarg value) :
    (UInt8.ofInt (altIndex optarg)).toNat = value := by
  have same : toInt value = value := toInt_of_range (by omega) (by omega)
  rw [altIndex, denotes.2, if_pos rfl, same, UInt8.ofInt, UInt8.toNat_ofNat']
  omega

end CommandLine

/-- A request that chooses no other alternate setting than this one. -/
def Chooses (alt : UInt8) (request : List UInt8) : Prop := ∀ other, request = setAltRequest other → other = alt

theorem packet_chooses {alt : UInt8} {type : UInt32} {payload : List UInt8} (other : type ≠ qdaPktDfuSetAltSetting) :
    Chooses alt (packet type payload) := by
  intro chosen same
  refine absurd ?_ other
  rw [← type_packet type payload none, same, setAltRequest, type_packet]

theorem setAlt_chooses (alt : UInt8) : Chooses alt (setAltRequest alt) := by
  intro other same
  have payloads := List.append_cancel_left same
  cases payloads
  rfl

section Choice

variable {pageSize : Option Int} {options : Options} {root found : QdaIf} {argv : List Opt} {file : DfuFile} {held kept : QdaBuf}
  {now : History Calls}

theorem openDevice_altsetting (run : Runs ((openDevice options root).run held) now (.ret (found, kept))) :
    found.altsetting = UInt8.ofInt options.matchIfaceAltIndex := by
  obtain ⟨ret, later, rfl, opened⟩ := (runs_perform_seq _ _ _ _ _).mp run
  split at opened
  · exact absurd opened runs_exit
  obtain ⟨rc, between, early, late, detached, described, rfl⟩ := (runs_seq _ _ _ _ _).mp opened
  split at described
  · exact absurd described runs_exit
  obtain ⟨answer, after, first, second, asked, rest, rfl⟩ := (runs_seq _ _ _ _ _).mp described
  cases answer with
  | none => exact absurd rest runs_exit
  | some descriptor =>
    obtain ⟨rfl, same⟩ := (runs_pure _ _).mp rest
    cases same
    exact (getDfuDesc_rebase asked root).2

/-- The dialogue of a session that chooses no other alternate setting. -/
abbrev Choosing (alt : UInt8) : History Calls → Prop := Kept (Asked (Chooses alt)) fun _ => True

theorem prepareDevice_chooses {alt : UInt8} (chosen : UInt8.ofInt options.matchIfaceAltIndex = alt) (start : Choosing alt now) :
    wp (Choosing alt) ((prepareDevice pageSize options file root).run held) (fun _ later => Choosing alt later) now := by
  have any (code : Nat) (_ : code ≠ 0) : True := trivial
  have opens : wp (fun _ => True) ((openDevice options root).run held) (fun result _ => result.1.altsetting = alt) now := by
    intro later rest run
    refine ⟨trivial, ?_⟩
    rintro ⟨found, kept⟩ rfl
    exact (openDevice_altsetting run).trans chosen
  rw [prepareDevice, StateT.run_bind, wp_seq]
  refine ((Kept.performs start (openDevice_within any (packet_chooses (by decide)) _ _)).and opens).mono (fun _ both => both.1) ?_
  intro result later _ both
  obtain ⟨keeps, same⟩ := both
  rw [same, StateT.run_bind, wp_seq]
  refine (Kept.performs keeps (setAltSetting_within (setAlt_chooses alt))).imp ?_
  intro result later _ keeps
  split
  · exact keeps.exit trivial
  rw [StateT.run_bind, wp_seq]
  refine (Kept.performs keeps (settleStatus_within any (packet_chooses (by decide)) (packet_chooses (by decide))
    (packet_chooses (by decide)))).imp ?_
  intro result later _ keeps
  split
  · exact keeps.exit trivial
  · exact (wp_pure _).mpr ⟨keeps, keeps⟩

theorem prepare_chooses {alt : UInt8} (chosen : ∀ options, readOptions argv = some options →
      UInt8.ofInt options.matchIfaceAltIndex = alt) :
    wp (Choosing alt) ((prepare pageSize root argv).run held) (fun _ later => Choosing alt later) [] :=
  prepare_rule fun options _ _ _ read keeps => prepareDevice_chooses (chosen options read) keeps

theorem main_chooses {alt : UInt8} (chosen : ∀ options, readOptions argv = some options →
      UInt8.ofInt options.matchIfaceAltIndex = alt) :
    wp (Choosing alt) ((main pageSize root argv).run held) (fun _ _ => True) [] := by
  have any (code : Nat) (_ : code ≠ 0) : True := trivial
  rw [main, StateT.run_bind, wp_seq]
  refine (prepare_chooses chosen).imp ?_
  intro result later _ keeps
  rw [StateT.run_bind, wp_seq]
  refine (Kept.performs keeps (transfer_within any (packet_chooses (by decide)) (fun _ _ _ => packet_chooses (by decide))
    (fun _ _ => packet_chooses (by decide)) _)).imp ?_
  intro result later _ keeps
  exact (Kept.performs keeps (finish_within any (packet_chooses (by decide)) _)).imp fun _ _ _ _ => trivial

/-- An exit in place of the preparation. -/
theorem main_exits {code : Nat} (stops : prepare pageSize root argv = Host.exit code) :
    (main pageSize root argv).run held = .call (S := Calls) (.exit code) fun _ => .halt := by
  rw [main, stops]
  rfl

theorem Aimless.stops (aimless : Aimless argv) : prepare pageSize root argv = Host.exit exUsage := by
  unfold prepare
  cases read : readOptions argv with
  | none => rfl
  | some options =>
    have mode := aimless options read
    dsimp only
    rw [if_neg (by rw [mode]; decide), if_pos mode]

theorem version_stops (read : readOptions argv = some options) (version : options.mode = .version) :
    prepare pageSize root argv = Host.exit 0 := by
  simp only [prepare, read, if_pos version]

theorem exit_cases {code : Nat} {rest : Program Calls (Int × QdaBuf)}
    (run : Runs (.call (S := Calls) (.exit code) fun _ => .halt) now rest) :
    now = [] ∧ rest = .call (S := Calls) (.exit code) (fun _ => .halt) ∨ now = [⟨.exit code, ()⟩] ∧ rest = .halt := by
  cases run with
  | here => exact .inl ⟨rfl, rfl⟩
  | call last =>
    cases last
    exact .inr ⟨rfl, rfl⟩

theorem setting_asked (options : Options) (file : DfuFile) (root : QdaIf) (before : History Calls) : ∃ now rest,
    Runs ((prepareDevice pageSize options file root).run QdaBuf.blank) now rest ∧
    Selects (before ++ now) (UInt8.ofInt options.matchIfaceAltIndex) := by
  have asks := @setAltSetting_run dfuDescriptor (UInt8.ofInt options.matchIfaceAltIndex)
  rw [prepareDevice, StateT.run_bind]
  refine ⟨_, _, (openDevice_run options root).seq (asks.bind _), ?_⟩
  rw [← List.append_assoc, Selects, dialogue_conversation]
  exact ⟨_, List.mem_append_right _ (List.mem_singleton.mpr rfl), rfl⟩

theorem setting_requested (read : readOptions argv = some options) (wanted : options.mode ≠ .none) (other : options.mode ≠ .version) :
    ∃ now rest, Runs ((main pageSize root argv).run QdaBuf.blank) now rest ∧
      Selects now (UInt8.ofInt options.matchIfaceAltIndex) := by
  have prepares : ∃ now rest, Runs ((prepare pageSize root argv).run QdaBuf.blank) now rest ∧
      Selects now (UInt8.ofInt options.matchIfaceAltIndex) := by
    simp only [prepare, read, if_neg wanted, if_neg other]
    by_cases download : options.mode = .download
    · rw [if_pos download, StateT.run_bind]
      have short : ([] : List UInt8).length < 2 ^ 31 := by decide
      obtain ⟨early, spare, _, result⟩ := @dfuLoadFile_occurs [] QdaBuf.blank (DfuFile.zero options.fileName) options.verbose
        .maybe .maybe short
      have empty : ¬HasSuffix [] := fun suffix => absurd suffix.long (by decide)
      obtain ⟨parsed, _, passes⟩ := @examined_occurs [] spare (DfuFile.zero options.fileName) .maybe
        (by unfold required; split <;> simp) (fun suffix => absurd suffix empty)
      rw [passes] at result
      obtain ⟨file, _, loads⟩ | ⟨code, failed, _⟩ := result
      · obtain ⟨late, rest, run, selects⟩ := @setting_asked pageSize options file root early
        exact ⟨_, _, loads.seq run, selects⟩
      · cases failed
    · rw [if_neg download]
      exact setting_asked options _ root []
  obtain ⟨now, rest, run, selects⟩ := prepares
  rw [main, StateT.run_bind]
  exact ⟨now, _, run.bind _, selects⟩

end Choice

/-- The argument of `-a` is heeded if it is the number of an alternate setting, or if the program gets no further than
the command line. -/
theorem alternate_setting_heeded_iff {optarg : String} {argv : List Opt} (given : Given optarg argv) (pageSize : Option Int)
    (root : QdaIf) : (∀ now rest, Runs ((main pageSize root argv).run QdaBuf.blank) now rest → Heeds optarg now rest) ↔
      Selectable optarg ∨ Aimless argv := by
  constructor
  · intro heeds
    by_contra neither
    obtain ⟨senseless, aims⟩ := not_or.mp neither
    have some_ : ∃ options, readOptions argv = some options ∧ options.mode ≠ .none := by
      by_contra none_
      refine aims fun options read => ?_
      by_contra wanted
      exact none_ ⟨options, read, wanted⟩
    obtain ⟨options, read, wanted⟩ := some_
    by_cases version : options.mode = .version
    · have run : Runs ((main pageSize root argv).run QdaBuf.blank) [⟨.exit 0, ()⟩] .halt := by
        rw [main_exits (version_stops read version)]
        exact .call (.here _)
      obtain ⟨code, failure, exits⟩ := ((heeds _ _ run).fails senseless).2 rfl
      simp only [Exits, List.mem_singleton] at exits
      cases exits
      exact failure rfl
    · obtain ⟨now, rest, run, selects⟩ := @setting_requested pageSize options root argv read wanted version
      exact (heeds now rest run).unselected senseless _ selects
  · intro either now rest run
    obtain sensible | aimless := either
    · obtain ⟨value, small, denotes⟩ := sensible
      refine ⟨?_, fun senseless => absurd ⟨value, small, denotes⟩ senseless, fun senseless => absurd ⟨value, small, denotes⟩ senseless⟩
      intro alt selects
      obtain ⟨exchange, member, asked⟩ := selects
      have chosen := (main_chooses fun options read => congrArg UInt8.ofInt (given.index read)).safe run
      rw [chosen.dialogue exchange member alt asked, altIndex_selectable small denotes]
      exact denotes
    · rw [main_exits aimless.stops] at run
      have ends := exit_cases run
      have silent : dialogue now = [] := by
        obtain ⟨rfl, _⟩ | ⟨rfl, _⟩ := ends
        · rfl
        · rfl
      refine ⟨?_, ?_, ?_⟩
      · intro alt selects
        simp [Selects, silent] at selects
      · intro _ alt selects
        simp [Selects, silent] at selects
      · intro _
        obtain ⟨rfl, rfl⟩ | ⟨rfl, rfl⟩ := ends
        · exact ⟨by simp, by simp⟩
        · exact ⟨by simp, fun _ => ⟨exUsage, by decide, List.mem_singleton.mpr rfl⟩⟩

theorem hexadecimal_heeded : Selectable "0x1" ∧ ∀ now rest,
    Runs ((main none ⟨0, 0, 0, 0, 0, 0, 0⟩ [.alt "0x1", .download "firmware.bin"]).run QdaBuf.blank) now rest →
      Heeds "0x1" now rest := by
  have given : Given "0x1" [.alt "0x1", .download "firmware.bin"] := ⟨[], [.download "firmware.bin"], rfl, by simp⟩
  have selectable : Selectable "0x1" := ⟨1, by omega, by unfold Denotes; decide⟩
  exact ⟨selectable, (alternate_setting_heeded_iff given none ⟨0, 0, 0, 0, 0, 0, 0⟩).mpr (.inl selectable)⟩

/-- With `-a 256` the device is asked for setting 0. -/
theorem zero_selected_for_256 : ∃ now rest,
    Runs ((main none ⟨0, 0, 0, 0, 0, 0, 0⟩ [.alt "256", .download "firmware.bin"]).run QdaBuf.blank) now rest ∧
    Denotes "256" 256 ∧ Selects now 0 ∧ ¬Heeds "256" now rest := by
  have given : Given "256" [.alt "256", .download "firmware.bin"] := ⟨[], [.download "firmware.bin"], rfl, by simp⟩
  have denotes : Denotes "256" 256 := by
    unfold Denotes
    decide
  have read : ∃ options, readOptions [.alt "256", .download "firmware.bin"] = some options ∧ options.mode = .download := ⟨_, rfl, rfl⟩
  obtain ⟨options, read, download⟩ := read
  obtain ⟨now, rest, run, selects⟩ := @setting_requested none options ⟨0, 0, 0, 0, 0, 0, 0⟩ _ read (by rw [download]; decide)
    (by rw [download]; decide)
  have whole : toInt 256 = 256 := toInt_of_range (by decide) (by decide)
  have chosen : UInt8.ofInt options.matchIfaceAltIndex = 0 := by
    rw [given.index read, altIndex, denotes.2]
    dsimp only
    rw [if_pos rfl, Nat.cast_ofNat, whole]
    decide
  rw [chosen] at selects
  refine ⟨now, rest, run, denotes, selects, ?_⟩
  intro heeds
  have zero := heeds.selected 0 selects
  cases denotes.2.symm.trans zero.2

end DfuUtilQda.Dfu

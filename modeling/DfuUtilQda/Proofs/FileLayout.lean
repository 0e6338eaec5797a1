import DfuUtilQda.Proofs.RoundTrip

/-! Where the prefix and the suffix of a loaded file lie. They are looked for from opposite ends,
and that they overlap is noticed but matters only to those who insist on a prefix. -/

namespace DfuUtilQda.Dfu
open Interaction Machine Qda Host

/-- Prefix and suffix are of a possible length and leave something, if only nothing, between them. -/
structure DfuFile.LaidOut (file : DfuFile) : Prop where
  prefixSize : file.prefixSize = 0 ∨ file.prefixSize = 8 ∨ file.prefixSize = 16
  suffixSize : file.suffixSize = 0 ∨ 16 ≤ file.suffixSize
  inside : file.prefixSize + file.suffixSize ≤ file.total
  payload : file.payload? ≠ none

/-- What looks like a prefix reaches beyond the end of the file or into its suffix. -/
def Overlapping (contents : List UInt8) : Prop :=
  contents.length < prefixLength contents ∨ HasSuffix contents ∧ contents.length < prefixLength contents + suffixLength contents

theorem prefixLength_cases (contents : List UInt8) :
    prefixLength contents = 0 ∨ prefixLength contents = 8 ∨ prefixLength contents = 16 := by
  unfold prefixLength
  repeat' split
  all_goals simp

section Layout

variable {contents spare : List UInt8} {file parsed : DfuFile} {checkSuffix : SuffixReq}

/-- Of a file that came through the checks only the sum of the lengths is in question. -/
theorem Accepted.laidOut_iff (accepted : Accepted file contents spare checkSuffix parsed) :
    (probePrefix parsed).2.LaidOut ↔ (prefixLength contents : Int) + parsed.suffixSize ≤ contents.length := by
  obtain ⟨bytes, total, fresh, few⟩ := accepted.fresh
  have sized := (probePrefix_length bytes total fresh few).1
  obtain ⟨prefixType, prefixSize, lmdfuAddress, keeps⟩ := probePrefix_keeps parsed
  rw [keeps] at sized ⊢
  dsimp only at sized
  subst sized
  constructor
  · intro laidOut
    have inside := laidOut.inside
    dsimp only at inside
    rwa [total] at inside
  · intro room
    refine ⟨?_, ?_, ?_, ?_⟩
    · obtain none_ | stellaris | nxp := prefixLength_cases contents
      · exact .inl (congrArg Int.ofNat none_)
      · exact .inr (.inl (congrArg Int.ofNat stellaris))
      · exact .inr (.inr (congrArg Int.ofNat nxp))
    · cases accepted with
      | bare => exact .inl rfl
      | suffixed _ _ least _ => exact .inr (Int.ofNat_le.mpr least)
    · dsimp only
      rwa [total]
    · unfold DfuFile.payload?
      dsimp only
      have length : contents.length ≤ parsed.firmware.length := by
        rw [bytes, List.length_append]
        exact Nat.le_add_right _ _
      rw [total, if_neg (by omega), Pointer.load_inside _ _ _ (by omega)]
      exact Option.some_ne_none _

theorem Accepted.overlapping_iff (accepted : Accepted file contents spare checkSuffix parsed) :
    (prefixLength contents : Int) + parsed.suffixSize ≤ contents.length ↔ ¬Overlapping contents := by
  unfold Overlapping
  cases accepted with
  | bare none_ _ =>
    have size : (file.unread.holding contents spare).suffixSize = 0 := rfl
    simp only [none_, false_and, or_false, size]
    omega
  | suffixed some_ _ _ _ =>
    have size : ((file.unread.holding contents spare).suffixed contents).suffixSize = suffixLength contents := rfl
    simp only [some_, true_and, size]
    omega

/-- Without a prefix there is nothing to overlap, and with a prefix that is needed the probe is heeded. -/
theorem examined_laidOut_iff {checkPrefix : PrefixReq} {loaded : DfuFile}
    (found : examined file checkSuffix checkPrefix contents spare = .ok loaded) :
    loaded.LaidOut ↔ ¬(checkPrefix = .maybe ∧ Overlapping contents) := by
  obtain ⟨parsed, accepted, rfl, absent, present⟩ := examined_accepted found
  obtain ⟨bytes, total, fresh, few⟩ := accepted.fresh
  obtain ⟨sized, probed⟩ := probePrefix_length bytes total fresh few
  rw [accepted.laidOut_iff]
  cases checkPrefix with
  | maybe => simpa using accepted.overlapping_iff
  | needs =>
    simp only [reduceCtorEq, false_and, not_false_eq_true, iff_true]
    have heeded : (probePrefix parsed).1 ≠ true := fun failed => absent ⟨.inl failed, rfl⟩
    rw [Ne, probed] at heeded
    omega
  | no =>
    simp only [reduceCtorEq, false_and, not_false_eq_true, iff_true]
    have none_ : (probePrefix parsed).2.prefixSize = 0 := by
      by_contra some_
      exact present ⟨some_, rfl⟩
    rw [sized] at none_
    rw [none_]
    cases accepted with
    | bare => exact Int.natCast_nonneg _
    | suffixed _ _ _ most =>
      have size : ((file.unread.holding contents spare).suffixed contents).suffixSize = suffixLength contents := rfl
      rw [size]
      omega

end Layout

/-- A file that was loaded is laid out as it should be, unless a prefix is optional and what looks like one
does not fit in. -/
theorem loaded_layout_iff {contents : List UInt8} (short : contents.length < 2 ^ 31) {file loaded : DfuFile} {verbose : Nat}
    {checkSuffix : SuffixReq} {checkPrefix : PrefixReq} {held kept : QdaBuf} {now : History Calls} (supplies : Supplies contents now)
    (run : Runs ((dfuLoadFile verbose file checkSuffix checkPrefix).run held) now (.ret (loaded, kept))) :
    loaded.LaidOut ↔ ¬(checkPrefix = .maybe ∧ Overlapping contents) := by
  obtain ⟨spare, _, _, found, _, _⟩ := (dfuLoadFile_spec short).returns run supplies
  exact examined_laidOut_iff found

/-- Three bytes, stored between a prefix and a suffix. -/
theorem threeBytes_laidOut : ∃ now loaded, Supplies (storedFile threeBytes [0x01, 0x02, 0x03] true true) now ∧
    Runs ((dfuLoadFile 0 (DfuFile.zero "image.dfu") .needs .maybe).run QdaBuf.blank) now (.ret (loaded, QdaBuf.blank)) ∧
    loaded.LaidOut ∧ loaded.prefixSize = 8 ∧ loaded.suffixSize = 16 := by
  have length : (storedFile threeBytes [0x01, 0x02, 0x03] true true).length = 27 := by decide +kernel
  have front : prefixLength (storedFile threeBytes [0x01, 0x02, 0x03] true true) = 8 := by decide +kernel
  have back : suffixLength (storedFile threeBytes [0x01, 0x02, 0x03] true true) = 16 := storedFile_length
  have short : (storedFile threeBytes [0x01, 0x02, 0x03] true true).length < 2 ^ 31 := by omega
  have needs : SuffixReq.needs ≠ .no := by decide
  obtain ⟨now, spare, supplies, result⟩ :=
    @dfuLoadFile_occurs _ QdaBuf.blank (DfuFile.zero "image.dfu") 0 .needs .maybe short
  obtain ⟨parsed, accepted, found⟩ := stored_examined threeBytes [0x01, 0x02, 0x03] true (DfuFile.zero "image.dfu") needs spare
  rw [found] at result
  obtain ⟨loaded, same, run⟩ | ⟨code, same, _⟩ := result
  · cases same
    refine ⟨now, _, supplies, run, ?_, (accepted.placed (by decide)).2.1, accepted.identified.1⟩
    apply (loaded_layout_iff short supplies run).mpr
    intro overlap
    obtain outside | ⟨_, outside⟩ := overlap.2
    · omega
    · omega
  · cases same

/-- Eight bytes that begin like a prefix of sixteen. -/
def stub : List UInt8 := [0x1a, 0x3f, 0, 0, 0, 0, 0, 0]

/-- They are loaded as a file with a payload of minus eight bytes. -/
theorem stub_loaded_with_negative_payload : ∃ now loaded held, Supplies stub now ∧
    Runs ((dfuLoadFile 0 (DfuFile.zero "firmware.bin") .maybe .maybe).run QdaBuf.blank) now (.ret (loaded, held)) ∧
    ¬loaded.LaidOut ∧ loaded.total - loaded.prefixSize - loaded.suffixSize = -8 ∧ loaded.payload? = none := by
  have short : stub.length < 2 ^ 31 := by decide
  have bare : ¬HasSuffix stub := fun suffix => absurd suffix.long (by decide)
  obtain ⟨now, spare, supplies, result⟩ :=
    @dfuLoadFile_occurs stub QdaBuf.blank (DfuFile.zero "firmware.bin") 0 .maybe .maybe short
  obtain ⟨parsed, accepted, found⟩ := @examined_occurs stub spare (DfuFile.zero "firmware.bin") .maybe
    (fun _ => by decide) (fun suffix => absurd suffix bare)
  rw [found] at result
  obtain ⟨loaded, same, run⟩ | ⟨code, same, _⟩ := result
  · cases same
    obtain ⟨bytes, total, fresh, few⟩ := accepted.fresh
    have long : prefixLength stub = 16 := by decide
    have length : stub.length = 8 := rfl
    have plain : parsed.suffixSize = 0 := by
      cases accepted with
      | bare => rfl
      | suffixed suffix => exact absurd suffix bare
    have size : (probePrefix parsed).2.total - (probePrefix parsed).2.prefixSize - (probePrefix parsed).2.suffixSize = -8 := by
      have sized := (probePrefix_length bytes total fresh few).1
      obtain ⟨prefixType, prefixSize, lmdfuAddress, keeps⟩ := probePrefix_keeps parsed
      rw [keeps] at sized ⊢
      dsimp only at sized ⊢
      rw [sized, total, plain, long, length]
      rfl
    refine ⟨now, _, _, supplies, run, ?_, size, ?_⟩
    · rw [accepted.laidOut_iff, plain, long, length]
      omega
    · rw [DfuFile.payload?, if_pos (by omega)]
  · cases same

end DfuUtilQda.Dfu

import DfuUtilQda.Proofs.LoadingEnds

/-! What the checks find in a file, told by its contents: whether a valid suffix stands
at their end, and what a prefix at their beginning looks like. -/

namespace DfuUtilQda.Dfu
open Interaction Machine Qda Host

/-- A byte of the last sixteen. -/
def suffixByte (contents : List UInt8) (index : Nat) : UInt8 := contents.getD (contents.length - 16 + index) 0

def storedCrc (contents : List UInt8) : UInt32 :=
  ((suffixByte contents 15).toUInt32 <<< 24) + ((suffixByte contents 14).toUInt32 <<< 16) +
    ((suffixByte contents 13).toUInt32 <<< 8) + (suffixByte contents 12).toUInt32

def computedCrc (contents : List UInt8) : UInt32 := (contents.take (contents.length - 4)).foldl crc32Byte 0xffffffff

/-- The contents end with a signature and the right checksum. -/
structure HasSuffix (contents : List UInt8) : Prop where
  long : 16 ≤ contents.length
  signature : suffixByte contents 8 = 0x55 ∧ suffixByte contents 9 = 0x46 ∧ suffixByte contents 10 = 0x44
  crc : storedCrc contents = computedCrc contents

/-- The length that the suffix gives for itself. -/
def suffixLength (contents : List UInt8) : Nat := (suffixByte contents 11).toNat

def prefixLength (contents : List UInt8) : Nat :=
  if contents.length < 8 then 0
  else if contents.getD 0 0 = 0x01 ∧ contents.getD 1 0 = 0x00 then 8
  else if contents.getD 0 0 &&& 0x3f = 0x1a ∧ contents.getD 1 0 &&& 0x3f = 0x3f then 16
  else 0

section Parse

variable {contents spare : List UInt8} {file : DfuFile}

theorem holding_byte {index : Int} (low : 0 ≤ index) (high : index < contents.length) :
    (file.holding contents spare).byte index = contents.getD index.toNat 0 := by
  rw [DfuFile.byte, DfuFile.holding, List.getD_eq_getElem?_getD, List.getD_eq_getElem?_getD, List.getElem?_append_left (by omega)]

theorem suffix_byte (long : 16 ≤ contents.length) {index : Int} (low : 0 ≤ index) (high : index < 16) :
    (file.holding contents spare).byte ((file.holding contents spare).total - dfuSuffixLength + index) =
      suffixByte contents index.toNat := by
  have total : (file.holding contents spare).total = contents.length := rfl
  have size : (dfuSuffixLength : Int) = 16 := rfl
  rw [total, size, holding_byte (by omega) (by omega), suffixByte]
  congr 1
  omega

theorem crc_holding (long : 16 ≤ contents.length) : ((file.holding contents spare).firmware.take
    ((file.holding contents spare).total - 4).toNat).foldl crc32Byte 0xffffffff = computedCrc contents := by
  have size : ((file.holding contents spare).total - 4).toNat = contents.length - 4 := by
    change ((contents.length : Int) - 4).toNat = _
    omega
  rw [size, DfuFile.holding, computedCrc, List.take_append_of_le_length (Nat.sub_le _ _)]

/-- The file with what its suffix says of it. -/
def DfuFile.suffixed (file : DfuFile) (contents : List UInt8) : DfuFile :=
  { file with
    dwCRC := storedCrc contents
    bcdDFU := ((suffixByte contents 7).toUInt16 <<< 8) + (suffixByte contents 6).toUInt16
    suffixSize := suffixLength contents
    idVendor := ((suffixByte contents 5).toUInt16 <<< 8) + (suffixByte contents 4).toUInt16
    idProduct := ((suffixByte contents 3).toUInt16 <<< 8) + (suffixByte contents 2).toUInt16
    bcdDevice := ((suffixByte contents 1).toUInt16 <<< 8) + (suffixByte contents 0).toUInt16 }

/-- The checksum field of a file without a valid suffix: a signature is enough for it to be set. -/
def leftCrc (file : DfuFile) (contents : List UInt8) : UInt32 :=
  if 16 ≤ contents.length ∧ suffixByte contents 8 = 0x55 ∧ suffixByte contents 9 = 0x46 ∧ suffixByte contents 10 = 0x44 then
    storedCrc contents
  else file.dwCRC

theorem parseSuffix_none (none_ : ¬HasSuffix contents) : parseSuffix (file.holding contents spare) =
    .ok (true, { file.holding contents spare with dwCRC := leftCrc file contents }) := by
  unfold parseSuffix leftCrc
  by_cases tiny : (file.holding contents spare).total < dfuSuffixLength
  · have few : ¬16 ≤ contents.length := by
      have total : (file.holding contents spare).total = contents.length := rfl
      have size : (dfuSuffixLength : Int) = 16 := rfl
      omega
    rw [if_pos tiny, if_neg fun signed => few signed.1]
    rfl
  · have long : 16 ≤ contents.length := by
      have total : (file.holding contents spare).total = contents.length := rfl
      have size : (dfuSuffixLength : Int) = 16 := rfl
      omega
    rw [if_neg tiny]
    simp (disch := omega) only [suffix_byte long, crc_holding long]
    by_cases unsigned : suffixByte contents 10 ≠ 0x44 ∨ suffixByte contents 9 ≠ 0x46 ∨ suffixByte contents 8 ≠ 0x55
    · have other : ¬(16 ≤ contents.length ∧ suffixByte contents 8 = 0x55 ∧ suffixByte contents 9 = 0x46 ∧
          suffixByte contents 10 = 0x44) := by
        intro ⟨_, first, second, third⟩
        simp [first, second, third] at unsigned
      rw [if_neg other]
      exact if_pos unsigned
    · simp only [not_or, not_not] at unsigned
      have wrong : storedCrc contents ≠ computedCrc contents := by
        intro same
        exact none_ ⟨long, ⟨unsigned.2.2, unsigned.2.1, unsigned.1⟩, same⟩
      have signed : 16 ≤ contents.length ∧ suffixByte contents 8 = 0x55 ∧ suffixByte contents 9 = 0x46 ∧
          suffixByte contents 10 = 0x44 := ⟨long, unsigned.2.2, unsigned.2.1, unsigned.1⟩
      rw [if_pos signed, if_neg (by simp [unsigned])]
      exact if_pos wrong

theorem parseSuffix_some (suffix : HasSuffix contents) : parseSuffix (file.holding contents spare) =
    if (suffixLength contents : Int) < dfuSuffixLength then .error exIoerr
    else if (suffixLength contents : Int) > contents.length then .error exIoerr
    else .ok (false, (file.holding contents spare).suffixed contents) := by
  obtain ⟨long, signature, crc⟩ := suffix
  have tiny : ¬(file.holding contents spare).total < dfuSuffixLength := by
    have total : (file.holding contents spare).total = contents.length := rfl
    have size : (dfuSuffixLength : Int) = 16 := rfl
    omega
  unfold parseSuffix
  rw [if_neg tiny]
  simp (disch := omega) only [suffix_byte long, crc_holding long]
  rw [if_neg (by simp [signature])]
  exact if_neg (not_not.mpr crc)

theorem probePrefix_keeps (file : DfuFile) : ∃ prefixType prefixSize lmdfuAddress,
    (probePrefix file).2 = { file with prefixType, prefixSize, lmdfuAddress } := by
  unfold probePrefix
  split
  · exact ⟨file.prefixType, file.prefixSize, file.lmdfuAddress, rfl⟩
  · dsimp only
    split
    · exact ⟨_, _, _, rfl⟩
    · split
      · exact ⟨_, _, file.lmdfuAddress, rfl⟩
      · exact ⟨file.prefixType, file.prefixSize, file.lmdfuAddress, rfl⟩

section Probe

variable (bytes : file.firmware = contents ++ spare) (total : file.total = contents.length)
include bytes total

omit total in
theorem contents_byte {index : Nat} (inside : index < contents.length) : file.byte index = contents.getD index 0 := by
  rw [DfuFile.byte, bytes, Int.toNat_natCast, List.getD_eq_getElem?_getD, List.getD_eq_getElem?_getD,
    List.getElem?_append_left inside]

/-- The length of the prefix, and when the probe fails: too few bytes for a prefix, or for both. -/
theorem probePrefix_length (fresh : file.prefixSize = 0) (few : 0 ≤ file.suffixSize ∧ file.suffixSize ≤ 255) :
    (probePrefix file).2.prefixSize = prefixLength contents ∧
    ((probePrefix file).1 = true ↔
      contents.length < 8 ∨ (contents.length : Int) < prefixLength contents + file.suffixSize) := by
  have eight : (lmdfuPrefixLength : Int) = 8 := rfl
  have sixteen : (lpcdfuPrefixLength : Int) = 16 := rfl
  unfold probePrefix prefixLength
  by_cases tiny : contents.length < 8
  · rw [if_pos (by omega), if_pos tiny]
    exact ⟨fresh, by simp [tiny]⟩
  · have first := contents_byte bytes (show 0 < contents.length by omega)
    have second := contents_byte bytes (show 1 < contents.length by omega)
    rw [if_neg (by omega), if_neg tiny]
    simp only [Nat.cast_zero, Nat.cast_one] at first second
    simp only [first, second]
    have sum {size : Int} (range : 0 ≤ size ∧ size ≤ 16) : toInt (size + file.suffixSize) = size + file.suffixSize :=
      toInt_of_range (by omega) (by omega)
    by_cases stellaris : contents.getD 0 0 = 0x01 ∧ contents.getD 1 0 = 0x00
    · simp only [if_pos stellaris]
      refine ⟨rfl, ?_⟩
      rw [decide_eq_true_iff, sum (by omega), total]
      omega
    · simp only [if_neg stellaris]
      by_cases nxp : contents.getD 0 0 &&& 0x3f = 0x1a ∧ contents.getD 1 0 &&& 0x3f = 0x3f
      · simp only [if_pos nxp]
        refine ⟨rfl, ?_⟩
        rw [decide_eq_true_iff, sum (by omega), total]
        omega
      · simp only [if_neg nxp]
        refine ⟨fresh, ?_⟩
        rw [decide_eq_true_iff, fresh, sum (by omega), total]
        omega

end Probe

/-- A file that came through the checks, told by its contents. -/
inductive Accepted (file : DfuFile) (contents spare : List UInt8) (checkSuffix : SuffixReq) : DfuFile → Prop where
  | bare {dwCRC : UInt32} (none_ : ¬HasSuffix contents) (allowed : required file checkSuffix ≠ .needs) :
      Accepted file contents spare checkSuffix { file.unread.holding contents spare with dwCRC }
  | suffixed (some_ : HasSuffix contents) (allowed : required file checkSuffix ≠ .no) (least : 16 ≤ suffixLength contents)
      (most : suffixLength contents ≤ contents.length) :
      Accepted file contents spare checkSuffix ((file.unread.holding contents spare).suffixed contents)

variable {checkSuffix : SuffixReq} {checkPrefix : PrefixReq} {loaded : DfuFile}

theorem suffixLength_le (contents : List UInt8) : suffixLength contents ≤ 255 := Nat.le_of_lt_succ (UInt8.toNat_lt _)

theorem examined_accepted (found : examined file checkSuffix checkPrefix contents spare = .ok loaded) : ∃ parsed,
    Accepted file contents spare checkSuffix parsed ∧ loaded = (probePrefix parsed).2 ∧
    ¬(((probePrefix parsed).1 = true ∨ loaded.prefixSize = 0) ∧ checkPrefix = .needs) ∧
    ¬(loaded.prefixSize ≠ 0 ∧ checkPrefix = .no) := by
  obtain ⟨missing, parsed, parses, needed, unwanted, same, absent, present⟩ := examine_ok found
  refine ⟨parsed, ?_, same, absent, present⟩
  by_cases suffix : HasSuffix contents
  · rw [parseSuffix_some suffix] at parses
    have size : (dfuSuffixLength : Int) = 16 := rfl
    split at parses
    · cases parses
    · split at parses
      · cases parses
      · cases parses
        exact .suffixed suffix (fun no => unwanted ⟨rfl, no⟩) (by omega) (by omega)
  · rw [parseSuffix_none suffix] at parses
    cases parses
    exact .bare suffix (fun needs => needed ⟨rfl, needs⟩)

theorem Accepted.fresh {parsed : DfuFile} (accepted : Accepted file contents spare checkSuffix parsed) :
    parsed.firmware = contents ++ spare ∧ parsed.total = contents.length ∧ parsed.prefixSize = 0 ∧
    0 ≤ parsed.suffixSize ∧ parsed.suffixSize ≤ 255 := by
  cases accepted with
  | bare => exact ⟨rfl, rfl, rfl, Int.le_refl 0, Int.ofNat_le.mpr (Nat.zero_le 255)⟩
  | suffixed => exact ⟨rfl, rfl, rfl, Int.natCast_nonneg _, Int.ofNat_le.mpr (suffixLength_le contents)⟩

theorem examined_occurs (bare : ¬HasSuffix contents → required file checkSuffix ≠ .needs)
    (sound : HasSuffix contents → required file checkSuffix ≠ .no ∧ 16 ≤ suffixLength contents ∧
      suffixLength contents ≤ contents.length) :
    ∃ parsed, Accepted file contents spare checkSuffix parsed ∧
      examined file checkSuffix .maybe contents spare = .ok (probePrefix parsed).2 := by
  unfold examined examine
  by_cases suffix : HasSuffix contents
  · obtain ⟨allowed, least, most⟩ := sound suffix
    have size : (dfuSuffixLength : Int) = 16 := rfl
    refine ⟨_, .suffixed suffix allowed least most, ?_⟩
    rw [parseSuffix_some suffix, if_neg (by omega), if_neg (by omega)]
    dsimp only
    rw [if_neg (by simp), if_neg (by simp [allowed])]
    simp
  · refine ⟨_, @Accepted.bare file contents spare checkSuffix (leftCrc file.unread contents) suffix (bare suffix), ?_⟩
    rw [parseSuffix_none suffix]
    dsimp only
    rw [if_neg (by simp [bare suffix]), if_neg (by simp)]
    simp

end Parse

end DfuUtilQda.Dfu

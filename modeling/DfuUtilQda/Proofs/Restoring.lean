import DfuUtilQda.Proofs.RoundTrip

/-! A file that is stored, loaded and stored again. The second time it comes from memory with its prefix
in front of it, and whether the prefix says so depends on its kind. -/

namespace DfuUtilQda.Dfu
open Interaction Machine Qda Host

/-- The payload in units of 512 bytes, as an LPC prefix counts it. -/
def DfuFile.units (file : DfuFile) : UInt32 := UInt32.ofInt ((toInt (file.total - file.suffixSize + 511)).tdiv 512)

/-- Bytes before the payload, up to the sixteen of a prefix, make no difference to the number of units: they neither
begin a new one nor are they what makes the `int` overflow. -/
structure Settled (length before : Int) : Prop where
  unit : ∀ size, length + before ≤ size → size < length + 16 → ¬512 ∣ size
  range : length + before ≠ 2 ^ 31 - 511

/-- Storing the file with a suffix and a prefix writes these contents. -/
def Stores (file : DfuFile) (contents : List UInt8) : Prop := ∃ stores fd held kept,
  Runs ((dfuStoreFile file true true).run held) stores (.ret ((), kept)) ∧
  stores.head? = some ⟨.openTruncated file.name, fd⟩ ∧ output fd stores = contents

section Prefixes

variable {file other : DfuFile} {payload : List UInt8}

theorem low_bytes_iff (first second : UInt32) : (first &&& 0xff).toUInt8 = (second &&& 0xff).toUInt8 ∧
    ((first >>> 8) &&& 0xff).toUInt8 = ((second >>> 8) &&& 0xff).toUInt8 ↔ first.toNat % 65536 = second.toNat % 65536 := by
  have bytes (word : UInt32) : (word &&& 0xff).toUInt8.toNat = word.toNat % 256 ∧
      ((word >>> 8) &&& 0xff).toUInt8.toNat = word.toNat / 256 % 256 := by
    refine ⟨(wordBytes_toNat word).1, ?_⟩
    rw [(wordBytes_toNat (word >>> 8)).1, UInt32.toNat_shiftRight, Nat.shiftRight_eq_div_pow]
    rfl
  rw [← UInt8.toNat_inj, ← UInt8.toNat_inj, (bytes first).1, (bytes first).2, (bytes second).1, (bytes second).2]
  omega

theorem lpcdfuPrefix_eq_iff : lpcdfuPrefix other = lpcdfuPrefix file ↔ other.units.toNat % 65536 = file.units.toNat % 65536 := by
  rw [← low_bytes_iff]
  unfold lpcdfuPrefix
  simp [DfuFile.units]

/-- The address is cut off to what the prefix can hold once and for all. -/
theorem lmdfuPrefix_again (address : other.lmdfuAddress = file.prefixAddress)
    (size : other.total - other.prefixSize - other.suffixSize = file.total - file.prefixSize - file.suffixSize) :
    lmdfuPrefix other = lmdfuPrefix file := by
  obtain ⟨low, high, _⟩ := wordBytes_toNat (other.lmdfuAddress / 1024)
  obtain ⟨low', high', _⟩ := wordBytes_toNat (file.lmdfuAddress / 1024)
  have units : (other.lmdfuAddress / 1024).toNat = file.lmdfuAddress.toNat / 1024 % 65536 := by
    rw [UInt32.toNat_div, address, prefixAddress_toNat]
    change _ / 1024 = _
    omega
  have units' : (file.lmdfuAddress / 1024).toNat = file.lmdfuAddress.toNat / 1024 := UInt32.toNat_div _ _
  have first : ((other.lmdfuAddress / 1024) &&& 0xff).toUInt8 = ((file.lmdfuAddress / 1024) &&& 0xff).toUInt8 := by
    apply UInt8.toNat_inj.mp
    rw [low, low', units, units']
    omega
  have second : ((other.lmdfuAddress / 1024) >>> 8).toUInt8 = ((file.lmdfuAddress / 1024) >>> 8).toUInt8 := by
    apply UInt8.toNat_inj.mp
    rw [high, high', units, units']
    omega
  unfold lmdfuPrefix
  simp only [size, first, second]

theorem units_counted {value : Int} (low : 0 ≤ value) (high : value < 2 ^ 31) :
    ((UInt32.ofInt ((toInt value).tdiv 512)).toNat : Int) % 65536 = value / 512 % 65536 := by
  rw [toInt_of_range (by omega) high, Int.tdiv_eq_ediv_of_nonneg low, UInt32.ofInt, UInt32.toNat_ofNat']
  omega

theorem units_overflown {value : Int} (low : 2 ^ 31 ≤ value) (high : value < 2 ^ 31 + 512) :
    ((UInt32.ofInt ((toInt value).tdiv 512)).toNat : Int) % 65536 = if value = 2 ^ 31 then 0 else 1 := by
  have wrapped : toInt value = -(2 ^ 32 - value) := by
    unfold toInt
    omega
  rw [wrapped, Int.neg_tdiv, Int.tdiv_eq_ediv_of_nonneg (by omega), UInt32.ofInt, UInt32.toNat_ofNat']
  split <;> omega

theorem same_unit_iff {length before : Int} (range : 0 ≤ before ∧ before ≤ 16) :
    (∀ size, length + before ≤ size → size < length + 16 → ¬512 ∣ size) ↔
      (length + 16 + 511) / 512 = (length + before + 511) / 512 := by
  constructor
  · intro none_
    by_contra differ
    exact none_ (512 * ((length + before + 511) / 512)) (by omega) (by omega) (Int.dvd_mul_right _ _)
  · intro same size low high whole
    obtain ⟨units, rfl⟩ := whole
    omega

theorem units_eq_iff {length before : Int} (nonneg : 0 ≤ length) (few : length < 2 ^ 31 - 32) (range : 0 ≤ before ∧ before ≤ 16)
    (now : other.total - other.suffixSize = length + 16) (then_ : file.total - file.suffixSize = length + before) :
    other.units.toNat % 65536 = file.units.toNat % 65536 ↔ before = 16 ∨ Settled length before := by
  have settled : Settled length before ↔ (length + 16 + 511) / 512 = (length + before + 511) / 512 ∧
      length + before ≠ 2 ^ 31 - 511 := by
    rw [← same_unit_iff range]
    exact ⟨fun settled => ⟨settled.unit, settled.range⟩, fun both => ⟨both.1, both.2⟩⟩
  rw [settled, ← Int.natCast_inj, Int.natCast_emod, Int.natCast_emod]
  unfold DfuFile.units
  rw [now, then_, Nat.cast_ofNat]
  by_cases early : length + before + 511 < 2 ^ 31
  · rw [@units_counted (length + before + 511) (by omega) early]
    by_cases late : length + 16 + 511 < 2 ^ 31
    · rw [units_counted (by omega) late]
      omega
    · rw [units_overflown (by omega) (by omega)]
      split <;> omega
  · rw [@units_overflown (length + before + 511) (by omega) (by omega), units_overflown (by omega) (by omega)]
    split <;> split <;> omega

theorem storedFile_eq_iff (kind : other.prefixType = file.prefixType) (suffix : dfuSuffix other = dfuSuffix file) :
    storedFile other payload true true = storedFile file payload true true ↔ prefixBytes other true = prefixBytes file true := by
  have length : (prefixBytes other true).length = (prefixBytes file true).length := by
    rw [prefixBytes_length, prefixBytes_length, kind]
  have parts (file : DfuFile) : storedFile file payload true true =
      prefixBytes file true ++ (payload ++ suffixBytes file (prefixBytes file true ++ payload)) := List.append_assoc _ _ _
  constructor
  · intro same
    rw [parts, parts] at same
    exact List.append_inj_left same length
  · intro same
    rw [parts, parts, same, suffixBytes, suffixBytes, suffix]

theorem Stores.contents {contents : List UInt8} (stores : Stores file contents) (carried : file.payload? = some payload) :
    contents = storedFile file payload true true := by
  obtain ⟨_, _, _, _, run, opened, rfl⟩ := stores
  exact dfuStoreFile_output carried run opened

theorem stores_occurs (carried : file.payload? = some payload) : Stores file (storedFile file payload true true) := by
  obtain ⟨stores, fd, opened, run⟩ := @dfuStoreFile_occurs file QdaBuf.blank payload carried true true
  exact ⟨stores, fd, _, _, run, opened, dfuStoreFile_output carried run opened⟩

theorem Accepted.prefix_again_iff {target parsed : DfuFile} {spare : List UInt8} {checkSuffix : SuffixReq}
    (accepted : Accepted target (storedFile file payload true true) spare checkSuffix parsed) (some_ : file.prefixType ≠ .zero)
    (carried : file.payload? = some payload) (range : 0 ≤ file.prefixSize ∧ file.prefixSize ≤ 16)
    (short : (storedFile file payload true true).length < 2 ^ 31) :
    prefixBytes (probePrefix parsed).2 true = prefixBytes file true ↔
      file.prefixType = .lmdfu ∨ file.prefixSize = 16 ∨ Settled payload.length file.prefixSize := by
  obtain ⟨kind, size, address, found⟩ := accepted.placed some_
  obtain ⟨suffixSize, _⟩ := accepted.identified
  have first := payload_size carried
  have second := payload_size found
  unfold prefixBytes
  rw [if_pos rfl, if_pos rfl, kind]
  cases type : file.prefixType with
  | zero => exact absurd type some_
  | lmdfu => simpa using lmdfuPrefix_again (address type) (second.trans first.symm)
  | lpcdfuUnencrypted =>
    have sixteen : (probePrefix parsed).2.prefixSize = 16 := by rw [size, type]; rfl
    have few : (payload.length : Int) < 2 ^ 31 - 32 := by
      have whole : (storedFile file payload true true).length = 16 + payload.length + 16 := by
        rw [storedFile, if_pos rfl, List.length_append, List.length_append, prefixBytes_length, type]
        rfl
      omega
    simp only [reduceCtorEq, false_or]
    rw [lpcdfuPrefix_eq_iff]
    exact units_eq_iff (Int.natCast_nonneg _) few range (by omega) (by omega)

theorem Accepted.suffix_again {target parsed : DfuFile} {spare : List UInt8} {checkSuffix : SuffixReq} {wantsPrefix : Bool}
    (accepted : Accepted target (storedFile file payload true wantsPrefix) spare checkSuffix parsed) :
    dfuSuffix (probePrefix parsed).2 = dfuSuffix file := by
  obtain ⟨_, version, vendor, product, device⟩ := accepted.identified
  simp only [dfuSuffix, version, vendor, product, device]

theorem Accepted.again_iff {target parsed : DfuFile} {spare : List UInt8} {checkSuffix : SuffixReq}
    (accepted : Accepted target (storedFile file payload true true) spare checkSuffix parsed) (some_ : file.prefixType ≠ .zero)
    (carried : file.payload? = some payload) (range : 0 ≤ file.prefixSize ∧ file.prefixSize ≤ 16)
    (short : (storedFile file payload true true).length < 2 ^ 31) : (∃ again, Stores (probePrefix parsed).2 again) ∧
    ∀ again, Stores (probePrefix parsed).2 again → (again = storedFile file payload true true ↔
      file.prefixType = .lmdfu ∨ file.prefixSize = 16 ∨ Settled payload.length file.prefixSize) := by
  obtain ⟨kind, _, _, found⟩ := accepted.placed some_
  refine ⟨⟨_, stores_occurs found⟩, ?_⟩
  intro again restores
  rw [restores.contents found, storedFile_eq_iff kind accepted.suffix_again]
  exact accepted.prefix_again_iff some_ carried range short

end Prefixes

/-- A file that was stored and loaded is stored as what it was if its prefix counts the payload alone, if the prefix was in memory
the first time, too, or if it makes no difference to the number of units. -/
theorem restored_iff {file : DfuFile} {payload : List UInt8} (some_ : file.prefixType ≠ .zero)
    (carried : file.payload? = some payload) (range : 0 ≤ file.prefixSize ∧ file.prefixSize ≤ 16) {contents : List UInt8}
    (stores : Stores file contents) (short : contents.length < 2 ^ 31) (verbose : Nat) (target : DfuFile) (before : QdaBuf) :
    (∀ now rest, Supplies contents now → Runs ((dfuLoadFile verbose target .maybe .maybe).run before) now rest →
      Undisturbed now ∧ ∀ loaded, rest = .ret loaded → (∃ again, Stores loaded.1 again) ∧
        ∀ again, Stores loaded.1 again → (again = contents ↔
          file.prefixType = .lmdfu ∨ file.prefixSize = 16 ∨ Settled payload.length file.prefixSize)) ∧
    ∃ now loaded, Supplies contents now ∧
      Runs ((dfuLoadFile verbose target .maybe .maybe).run before) now (.ret (loaded, before)) := by
  have written := stores.contents carried
  obtain ⟨writes, fd, held, kept, stored, opened, rfl⟩ := stores
  have asked : SuffixReq.maybe ≠ .no := by decide
  refine ⟨?_, stored_loads carried stored opened short asked verbose target before⟩
  intro now rest supplies run
  obtain ⟨calm, done⟩ := stored_accepted carried stored opened short asked verbose target supplies run
  refine ⟨calm, ?_⟩
  intro loaded same
  obtain ⟨parsed, spare, accepted, passed⟩ := done loaded same
  rw [written] at short ⊢
  rw [passed]
  exact accepted.again_iff some_ carried range short

/-- A payload for an NXP device, in memory without a prefix. -/
def lpcImage (length : Nat) : DfuFile :=
  { DfuFile.zero "image.dfu" with
    firmware := List.replicate length 0xff, total := length, prefixType := .lpcdfuUnencrypted }

theorem lpcImage_carried (length : Nat) : (lpcImage length).payload? = some (List.replicate length 0xff) :=
  bare_payload rfl rfl (congrArg Int.ofNat List.length_replicate.symm)

theorem lpcImage_settled : Settled 1 0 := by
  constructor
  · intro size low high whole
    obtain ⟨units, rfl⟩ := whole
    omega
  · omega

theorem lpcImage_restored : ∃ contents now loaded again, Stores (lpcImage 1) contents ∧ Supplies contents now ∧
    Runs ((dfuLoadFile 0 (lpcImage 1) .maybe .maybe).run QdaBuf.blank) now (.ret (loaded, QdaBuf.blank)) ∧
    Stores loaded again ∧ again = contents := by
  have carried := lpcImage_carried 1
  have short : (storedFile (lpcImage 1) (List.replicate 1 0xff) true true).length < 2 ^ 31 := by decide +kernel
  obtain ⟨restores, now, loaded, supplies, run⟩ := restored_iff (show (lpcImage 1).prefixType ≠ .zero by decide) carried
    ⟨Int.le_refl 0, by decide⟩ (stores_occurs carried) short 0 (lpcImage 1) QdaBuf.blank
  obtain ⟨⟨again, second⟩, same_iff⟩ := (restores now _ supplies run).2 _ rfl
  exact ⟨_, now, loaded, again, stores_occurs carried, supplies, run, second,
    (same_iff again second).mpr (.inr (.inr lpcImage_settled))⟩

/-- One unit of payload is counted as one unit at first and then, with the prefix, as two. -/
theorem whole_unit_restored_otherwise : ∃ contents now loaded again, Stores (lpcImage 512) contents ∧ contents.length < 2 ^ 31 ∧
    Supplies contents now ∧ Runs ((dfuLoadFile 0 (lpcImage 512) .maybe .maybe).run QdaBuf.blank) now (.ret (loaded, QdaBuf.blank)) ∧
    Stores loaded again ∧ again ≠ contents := by
  have carried := lpcImage_carried 512
  have short : (storedFile (lpcImage 512) (List.replicate 512 0xff) true true).length < 2 ^ 31 := by
    have size := storedFile_size (lpcImage 512) (List.replicate 512 0xff) true true
    rw [List.length_replicate] at size
    omega
  obtain ⟨writes, fd, opened, stored⟩ := @dfuStoreFile_occurs (lpcImage 512) QdaBuf.blank _ carried true true
  have written := dfuStoreFile_output carried stored opened
  have asked : SuffixReq.maybe ≠ .no := by decide
  rw [← written] at short
  obtain ⟨now, loaded, supplies, run⟩ := stored_loads carried stored opened short asked 0 (lpcImage 512) QdaBuf.blank
  obtain ⟨_, done⟩ := stored_accepted carried stored opened short asked 0 (lpcImage 512) supplies run
  obtain ⟨parsed, spare, accepted, passed⟩ := done _ rfl
  dsimp only at passed
  rw [written] at short supplies
  obtain ⟨⟨again, restores⟩, same_iff⟩ := accepted.again_iff (by decide) carried ⟨Int.le_refl 0, by decide⟩ short
  refine ⟨_, now, loaded, again, stores_occurs carried, short, supplies, run, passed ▸ restores, ?_⟩
  rw [Ne, same_iff again restores, List.length_replicate]
  intro same
  obtain stellaris | sixteen | settled := same
  · cases stellaris
  · cases sixteen
  · exact settled.unit 512 (Int.le_refl 512) (by omega) (Int.dvd_refl 512)

end DfuUtilQda.Dfu

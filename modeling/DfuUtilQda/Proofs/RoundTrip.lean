import DfuUtilQda.Dfu.Main
import DfuUtilQda.Proofs.Storing

/-! A file that was stored and is loaded again: what the suffix and the prefix say of it, and the
payload between them. -/

namespace DfuUtilQda.Dfu
open Interaction Machine Qda Host

def PrefixType.size : PrefixType → Nat
  | .zero => 0
  | .lmdfu => lmdfuPrefixLength
  | .lpcdfuUnencrypted => lpcdfuPrefixLength

/-- The address is one that the two bytes for it in the prefix can hold. -/
def DfuFile.Addressable (file : DfuFile) : Prop := 1024 ∣ file.lmdfuAddress.toNat ∧ file.lmdfuAddress.toNat < 2 ^ 26

section Prefix

variable {file parsed : DfuFile} {rest spare : List UInt8}

theorem prefixBytes_length (file : DfuFile) : (prefixBytes file true).length = file.prefixType.size := by
  unfold prefixBytes
  rw [if_pos rfl]
  cases file.prefixType <;> rfl

/-- The address as it is read from the prefix, which holds two bytes of it. -/
def DfuFile.prefixAddress (file : DfuFile) : UInt32 :=
  (1024 : UInt32) * ((((file.lmdfuAddress / 1024) >>> 8).toUInt8.toUInt32 <<< 8) |||
    ((file.lmdfuAddress / 1024) &&& 0xff).toUInt8.toUInt32)

theorem storedFile_size (file : DfuFile) (payload : List UInt8) (wantsSuffix wantsPrefix : Bool) :
    (storedFile file payload wantsSuffix wantsPrefix).length ≤ payload.length + 32 := by
  have front : (prefixBytes file wantsPrefix).length ≤ 16 := by
    cases wantsPrefix with
    | false => exact Nat.zero_le 16
    | true =>
      rw [prefixBytes_length]
      cases file.prefixType <;> decide
  have back (body : List UInt8) : (suffixBytes file body).length = 16 := rfl
  unfold storedFile
  cases wantsSuffix with
  | false =>
    change (prefixBytes file wantsPrefix ++ payload).length ≤ _
    rw [List.length_append]
    omega
  | true =>
    simp only [if_pos, List.length_append, back]
    omega

theorem prefixAddress_toNat (file : DfuFile) : file.prefixAddress.toNat = 1024 * (file.lmdfuAddress.toNat / 1024 % 65536) := by
  have units : (file.lmdfuAddress / 1024).toNat = file.lmdfuAddress.toNat / 1024 := UInt32.toNat_div _ _
  obtain ⟨low, high, _⟩ := wordBytes_toNat (file.lmdfuAddress / 1024)
  rw [units] at low high
  unfold DfuFile.prefixAddress
  rw [UInt32.toNat_mul, UInt32.toNat_or, UInt32.toNat_shiftLeft, UInt8.toNat_toUInt32, UInt8.toNat_toUInt32, low, high]
  change 1024 * ((file.lmdfuAddress.toNat / 1024 / 256 % 256) <<< 8 % 2 ^ 32 ||| file.lmdfuAddress.toNat / 1024 % 256) % 2 ^ 32 = _
  have fits : (file.lmdfuAddress.toNat / 1024 / 256 % 256) <<< 8 % 2 ^ 32 = (file.lmdfuAddress.toNat / 1024 / 256 % 256) <<< 8 := by
    rw [Nat.shiftLeft_eq]
    omega
  rw [fits, ← Nat.shiftLeft_add_eq_or_of_lt (Nat.mod_lt _ (by decide)), Nat.shiftLeft_eq]
  omega

theorem address_read (addressable : file.Addressable) : file.prefixAddress = file.lmdfuAddress := by
  obtain ⟨aligned, small⟩ := addressable
  apply UInt32.toNat_inj.mp
  rw [prefixAddress_toNat]
  omega

theorem probePrefix_written (some_ : file.prefixType ≠ .zero)
    (bytes : parsed.firmware = (prefixBytes file true ++ rest) ++ spare)
    (total : parsed.total = (prefixBytes file true ++ rest).length) :
    (probePrefix parsed).2.prefixType = file.prefixType ∧ (probePrefix parsed).2.prefixSize = file.prefixType.size ∧
    (file.prefixType = .lmdfu → (probePrefix parsed).2.lmdfuAddress = file.prefixAddress) := by
  have eight : 8 ≤ (prefixBytes file true).length := by
    rw [prefixBytes_length]
    cases kind : file.prefixType with
    | zero => exact absurd kind some_
    | lmdfu => exact Nat.le_refl 8
    | lpcdfuUnencrypted => exact Nat.le_add_right 8 8
  have byte {index : Nat} (inside : index < 8) : parsed.byte index = (prefixBytes file true).getD index 0 := by
    rw [contents_byte bytes (by rw [List.length_append]; omega), List.getD_eq_getElem?_getD, List.getElem?_append_left (by omega),
      ← List.getD_eq_getElem?_getD]
  have long : ¬parsed.total < lmdfuPrefixLength := by
    have size : (lmdfuPrefixLength : Int) = 8 := rfl
    rw [total, List.length_append]
    omega
  have byte0 := byte (show 0 < 8 by omega)
  have byte1 := byte (show 1 < 8 by omega)
  have byte2 := byte (show 2 < 8 by omega)
  have byte3 := byte (show 3 < 8 by omega)
  simp only [Nat.cast_zero, Nat.cast_one, Nat.cast_ofNat] at byte0 byte1 byte2 byte3
  unfold probePrefix
  rw [if_neg long]
  simp only [byte0, byte1, byte2, byte3]
  unfold prefixBytes
  cases kind : file.prefixType with
  | zero => exact absurd kind some_
  | lmdfu =>
    rw [if_pos rfl]
    dsimp only
    rw [if_pos ⟨rfl, rfl⟩]
    exact ⟨rfl, rfl, fun _ => rfl⟩
  | lpcdfuUnencrypted =>
    rw [if_pos rfl]
    dsimp only
    have first : (lpcdfuPrefix file).getD 0 0 = 0x1a := rfl
    have second : (lpcdfuPrefix file).getD 1 0 = 0x3f := rfl
    rw [first, second, if_neg (by decide), if_pos (by decide)]
    exact ⟨rfl, rfl, fun other => by cases other⟩

end Prefix

/-- A loaded file says the same as the one that was stored, with this payload. -/
structure Recovered (file : DfuFile) (payload : List UInt8) (wantsPrefix : Bool) (loaded : DfuFile) : Prop where
  suffixSize : loaded.suffixSize = dfuSuffixLength
  bcdDFU : loaded.bcdDFU = file.bcdDFU
  ids : loaded.idVendor = file.idVendor ∧ loaded.idProduct = file.idProduct ∧ loaded.bcdDevice = file.bcdDevice
  placed : wantsPrefix = true → file.prefixType ≠ .zero →
    loaded.prefixType = file.prefixType ∧ loaded.prefixSize = file.prefixType.size ∧
    (file.prefixType = .lmdfu → loaded.lmdfuAddress = file.lmdfuAddress) ∧ loaded.payload? = some payload

section Recovery

variable {file target parsed : DfuFile} {payload spare : List UInt8} {wantsPrefix : Bool} {checkSuffix : SuffixReq}

theorem payload_between {front tail : List UInt8} {loaded : DfuFile} (bytes : loaded.firmware = (front ++ payload ++ tail) ++ spare)
    (total : loaded.total = (front ++ payload ++ tail).length) (prefixSize : loaded.prefixSize = front.length)
    (suffixSize : loaded.suffixSize = tail.length) : loaded.payload? = some payload := by
  have size : loaded.total - loaded.prefixSize - loaded.suffixSize = payload.length := by
    rw [total, prefixSize, suffixSize, List.length_append, List.length_append]
    omega
  rw [DfuFile.payload?, size, if_neg (by omega), Int.toNat_natCast, bytes, prefixSize, Pointer.load_inside]
  · rw [List.append_assoc, List.append_assoc, List.drop_left, List.take_left]
  · simp only [List.length_append]
    omega

theorem bare_payload (prefixSize : file.prefixSize = 0) (suffixSize : file.suffixSize = 0)
    (total : file.total = file.firmware.length) : file.payload? = some file.firmware := by
  apply @payload_between file.firmware [] [] [] file
  · simp
  · simpa using total
  · exact prefixSize
  · exact suffixSize

theorem probePrefix_same (file : DfuFile) : (probePrefix file).2.firmware = file.firmware ∧ (probePrefix file).2.total = file.total ∧
    (probePrefix file).2.suffixSize = file.suffixSize ∧ (probePrefix file).2.bcdDFU = file.bcdDFU ∧
    (probePrefix file).2.idVendor = file.idVendor ∧ (probePrefix file).2.idProduct = file.idProduct ∧
    (probePrefix file).2.bcdDevice = file.bcdDevice := by
  obtain ⟨prefixType, prefixSize, lmdfuAddress, keeps⟩ := probePrefix_keeps file
  rw [keeps]
  exact ⟨rfl, rfl, rfl, rfl, rfl, rfl, rfl⟩

theorem Accepted.identified (accepted : Accepted target (storedFile file payload true wantsPrefix) spare checkSuffix parsed) :
    (probePrefix parsed).2.suffixSize = dfuSuffixLength ∧ (probePrefix parsed).2.bcdDFU = file.bcdDFU ∧
    (probePrefix parsed).2.idVendor = file.idVendor ∧ (probePrefix parsed).2.idProduct = file.idProduct ∧
    (probePrefix parsed).2.bcdDevice = file.bcdDevice := by
  obtain ⟨_, _, suffixSize, bcdDFU, idVendor, idProduct, bcdDevice⟩ := probePrefix_same parsed
  rw [suffixSize, bcdDFU, idVendor, idProduct, bcdDevice]
  cases accepted with
  | bare none_ => exact absurd storedFile_suffix none_
  | suffixed =>
    obtain ⟨version, vendor, product, device⟩ := @storedFile_ids file payload wantsPrefix (target.unread.holding _ spare)
    exact ⟨congrArg Int.ofNat storedFile_length, version, vendor, product, device⟩

theorem Accepted.placed (accepted : Accepted target (storedFile file payload true true) spare checkSuffix parsed)
    (some_ : file.prefixType ≠ .zero) :
    (probePrefix parsed).2.prefixType = file.prefixType ∧ (probePrefix parsed).2.prefixSize = file.prefixType.size ∧
    (file.prefixType = .lmdfu → (probePrefix parsed).2.lmdfuAddress = file.prefixAddress) ∧
    (probePrefix parsed).2.payload? = some payload := by
  obtain ⟨bytes, total, _⟩ := accepted.fresh
  obtain ⟨firmware, length, _⟩ := probePrefix_same parsed
  have parts : storedFile file payload true true =
      prefixBytes file true ++ payload ++ suffixBytes file (prefixBytes file true ++ payload) := rfl
  rw [parts] at bytes total
  rw [List.append_assoc (prefixBytes file true)] at bytes total
  obtain ⟨type, size, address⟩ := probePrefix_written some_ bytes total
  rw [← List.append_assoc (prefixBytes file true)] at bytes total
  refine ⟨type, size, address, payload_between (firmware.trans bytes) (length.trans total) ?_ accepted.identified.1⟩
  rw [size, prefixBytes_length]

theorem Accepted.recovered (addressable : wantsPrefix = true → file.prefixType = .lmdfu → file.Addressable)
    (accepted : Accepted target (storedFile file payload true wantsPrefix) spare checkSuffix parsed) :
    Recovered file payload wantsPrefix (probePrefix parsed).2 := by
  obtain ⟨suffixSize, version, ids⟩ := accepted.identified
  refine ⟨suffixSize, version, ids, ?_⟩
  intro wanted some_
  subst wanted
  obtain ⟨type, size, address, found⟩ := accepted.placed some_
  have same (stellaris : file.prefixType = .lmdfu) := (address stellaris).trans (address_read (addressable rfl stellaris))
  exact ⟨type, size, same, found⟩

theorem stored_examined (file : DfuFile) (payload : List UInt8) (wantsPrefix : Bool) (target : DfuFile) (asked : checkSuffix ≠ .no)
    (spare : List UInt8) : ∃ parsed, Accepted target (storedFile file payload true wantsPrefix) spare checkSuffix parsed ∧
      examined target checkSuffix .maybe (storedFile file payload true wantsPrefix) spare = .ok (probePrefix parsed).2 := by
  have wanted : required target checkSuffix ≠ .no := by
    unfold required
    split
    · simp
    · exact asked
  apply examined_occurs
  · intro none_
    exact absurd storedFile_suffix none_
  · intro suffix
    refine ⟨wanted, ?_, ?_⟩
    · rw [storedFile_length]
    · rw [storedFile_length]
      exact suffix.long

section Stored

variable {stores : History Calls} {fd : Int} {held kept : QdaBuf} (carried : file.payload? = some payload)
  (stored : Runs ((dfuStoreFile file true wantsPrefix).run held) stores (.ret ((), kept)))
  (opened : stores.head? = some ⟨.openTruncated file.name, fd⟩) (short : (output fd stores).length < 2 ^ 31)
include carried stored opened short

theorem stored_loads (asked : checkSuffix ≠ .no) (verbose : Nat) (target : DfuFile) (before : QdaBuf) : ∃ now loaded,
    Supplies (output fd stores) now ∧
    Runs ((dfuLoadFile verbose target checkSuffix .maybe).run before) now (.ret (loaded, before)) := by
  rw [dfuStoreFile_output carried stored opened] at short ⊢
  obtain ⟨now, spare, supplies, result⟩ := @dfuLoadFile_occurs (storedFile file payload true wantsPrefix) before target verbose
    checkSuffix .maybe short
  obtain ⟨loaded, _, run⟩ | ⟨code, failed, _⟩ := result
  · exact ⟨now, loaded, supplies, run⟩
  · obtain ⟨parsed, _, passed⟩ := stored_examined file payload wantsPrefix target asked spare
    rw [passed] at failed
    cases failed

theorem stored_accepted (asked : checkSuffix ≠ .no) (verbose : Nat) (target : DfuFile) {before : QdaBuf} {now : History Calls}
    {rest : Program Calls (DfuFile × QdaBuf)} (supplies : Supplies (output fd stores) now)
    (run : Runs ((dfuLoadFile verbose target checkSuffix .maybe).run before) now rest) :
    Undisturbed now ∧ ∀ result, rest = .ret result → ∃ parsed spare,
      Accepted target (storedFile file payload true wantsPrefix) spare checkSuffix parsed ∧ result.1 = (probePrefix parsed).2 := by
  rw [dfuStoreFile_output carried stored opened] at short supplies
  obtain ⟨calm, done⟩ := dfuLoadFile_spec short now rest run
  constructor
  · obtain calm | ⟨spare, code, failed, _⟩ := calm supplies
    · exact calm
    · obtain ⟨parsed, _, passed⟩ := stored_examined file payload wantsPrefix target asked spare
      rw [passed] at failed
      cases failed
  · intro result same
    obtain ⟨spare, _, _, found, _, _⟩ := done result same supplies
    obtain ⟨parsed, sound, passed, _⟩ := examined_accepted found
    exact ⟨parsed, spare, sound, passed⟩

end Stored

/-- A file that was stored with a suffix, and with a prefix that can hold its address, is loaded again as what it was. -/
theorem stored_file_recovered {stores : History Calls} {fd : Int} {held kept : QdaBuf} (carried : file.payload? = some payload)
    (addressable : wantsPrefix = true → file.prefixType = .lmdfu → file.Addressable)
    (stored : Runs ((dfuStoreFile file true wantsPrefix).run held) stores (.ret ((), kept)))
    (opened : stores.head? = some ⟨.openTruncated file.name, fd⟩) (short : (output fd stores).length < 2 ^ 31)
    (asked : checkSuffix ≠ .no) (verbose : Nat) (target : DfuFile) (before : QdaBuf) :
    (∀ now rest, Runs ((dfuLoadFile verbose target checkSuffix .maybe).run before) now rest → Supplies (output fd stores) now →
      Undisturbed now ∧ ∀ result, rest = .ret result → Recovered file payload wantsPrefix result.1) ∧
    ∃ now loaded, Supplies (output fd stores) now ∧
      Runs ((dfuLoadFile verbose target checkSuffix .maybe).run before) now (.ret (loaded, before)) := by
  refine ⟨?_, stored_loads carried stored opened short asked verbose target before⟩
  intro now rest run supplies
  obtain ⟨calm, done⟩ := stored_accepted carried stored opened short asked verbose target supplies run
  refine ⟨calm, ?_⟩
  intro result same
  obtain ⟨parsed, spare, accepted, passed⟩ := done result same
  rw [passed]
  exact accepted.recovered addressable

end Recovery

/-- Three bytes for a Stellaris device. -/
def threeBytes : DfuFile :=
  { DfuFile.zero "image.dfu" with
    firmware := [0x01, 0x02, 0x03], total := 3
    lmdfuAddress := 0x2000, prefixType := .lmdfu
    idVendor := 0x1cbe, idProduct := 0x00ff }

theorem threeBytes_recovered : ∃ stores fd now loaded,
    Runs ((dfuStoreFile threeBytes true true).run QdaBuf.blank) stores (.ret ((), QdaBuf.blank)) ∧
    Supplies (output fd stores) now ∧
    Runs ((dfuLoadFile 0 threeBytes .needs .maybe).run QdaBuf.blank) now (.ret (loaded, QdaBuf.blank)) ∧
    Recovered threeBytes [0x01, 0x02, 0x03] true loaded := by
  have carried : threeBytes.payload? = some [0x01, 0x02, 0x03] := by decide
  obtain ⟨stores, fd, opened, stored⟩ := @dfuStoreFile_occurs threeBytes QdaBuf.blank _ carried true true
  have short : (output fd stores).length < 2 ^ 31 := by
    rw [dfuStoreFile_output carried stored opened]
    decide +kernel
  obtain ⟨recovers, now, loaded, supplies, run⟩ := stored_file_recovered carried (fun _ _ => ⟨by decide, by decide⟩) stored opened short
    (show SuffixReq.needs ≠ .no by decide) 0 threeBytes QdaBuf.blank
  exact ⟨stores, fd, now, loaded, stored, supplies, run, (recovers now _ run supplies).2 _ rfl⟩

end DfuUtilQda.Dfu

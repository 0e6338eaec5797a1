import DfuUtilQda.Proofs.RoundTrip

/-! The length of the payload that an LMDFU prefix gives. It is written with all four bytes and read
with the last of them in the wrong place. -/

namespace DfuUtilQda.Dfu
open Interaction Machine Qda Host

/-- The last thing printed is what a prefix says, and it says that the payload has this length. -/
def Reports (now : History Calls) (length : Int) : Prop :=
  ∃ before address, now = before ++ [⟨.report (.lmdfu address length), ()⟩]

theorem Reports.unique {now : History Calls} {first second : Int} (one : Reports now first) (other : Reports now second) :
    first = second := by
  obtain ⟨before, address, rfl⟩ := one
  obtain ⟨before', address', same⟩ := other
  obtain ⟨_, last⟩ := List.append_inj' same rfl
  injection last with event
  injection event with op
  injection op with found
  injection found

/-- A length as it is read from the prefix. -/
def decodedLength (length : Nat) : Nat := length % 2 ^ 24 ||| (length / 2 ^ 24) <<< 14

theorem decodedLength_small {length : Nat} (fits : length < 2 ^ 32) : decodedLength length < 2 ^ 24 := by
  apply Nat.or_lt_two_pow
  · exact Nat.mod_lt _ (Nat.two_pow_pos 24)
  · rw [Nat.shiftLeft_eq]
    omega

theorem decodedLength_iff {length : Nat} (fits : length < 2 ^ 32) : decodedLength length = length ↔ length < 2 ^ 24 := by
  constructor
  · intro same
    have small := decodedLength_small fits
    omega
  · intro small
    have high : length / 2 ^ 24 = 0 := Nat.div_eq_of_lt small
    rw [decodedLength, high, Nat.zero_shiftLeft, Nat.or_zero, Nat.mod_eq_of_lt small]

section Prefix

variable {file loaded : DfuFile} {payload rest spare : List UInt8} {held : QdaBuf}

theorem decoded_bytes (length : Nat) : length % 256 ||| (length / 256 % 256) <<< 8 ||| (length / 65536 % 256) <<< 16 |||
    (length / 2 ^ 24) <<< 14 = decodedLength length := by
  have pair : length % 256 ||| (length / 256 % 256) <<< 8 = length % 65536 := by
    rw [Nat.or_comm, ← Nat.shiftLeft_add_eq_or_of_lt (Nat.mod_lt _ (by omega)), Nat.shiftLeft_eq]
    omega
  have low : length % 65536 ||| (length / 65536 % 256) <<< 16 = length % 2 ^ 24 := by
    rw [Nat.or_comm, ← Nat.shiftLeft_add_eq_or_of_lt (Nat.mod_lt _ (by omega)), Nat.shiftLeft_eq]
    omega
  rw [pair, low, decodedLength]

theorem reportPrefix_written (stellaris : file.prefixType = .lmdfu) (carried : file.payload? = some payload)
    (fits : payload.length < 2 ^ 32) (kind : loaded.prefixType = .lmdfu)
    (bytes : loaded.firmware = (prefixBytes file true ++ rest) ++ spare) : reportPrefix loaded =
      Host.perform (.report (.lmdfu loaded.lmdfuAddress (decodedLength payload.length : Nat))) := by
  have front : prefixBytes file true = lmdfuPrefix file := by
    unfold prefixBytes
    rw [if_pos rfl, stellaris]
  have byte {index : Nat} (inside : index < 8) : loaded.byte index = (lmdfuPrefix file).getD index 0 := by
    have eight : (lmdfuPrefix file).length = 8 := rfl
    rw [contents_byte bytes (by rw [List.length_append, front]; omega), front, List.getD_eq_getElem?_getD,
      List.getElem?_append_left (by omega), ← List.getD_eq_getElem?_getD]
  have word : (UInt32.ofInt (file.total - file.prefixSize - file.suffixSize)).toNat = payload.length := by
    rw [payload_size carried, UInt32.ofInt, UInt32.toNat_ofNat']
    omega
  obtain ⟨first, second, third, fourth⟩ := wordBytes_toNat (UInt32.ofInt (file.total - file.prefixSize - file.suffixSize))
  rw [word] at first second third fourth
  have byte4 : (loaded.byte 4).toNat = payload.length % 256 := (congrArg UInt8.toNat (byte (show 4 < 8 by omega))).trans first
  have byte5 : (loaded.byte 5).toNat = payload.length / 256 % 256 := (congrArg UInt8.toNat (byte (show 5 < 8 by omega))).trans second
  have byte6 : (loaded.byte 6).toNat = payload.length / 65536 % 256 := (congrArg UInt8.toNat (byte (show 6 < 8 by omega))).trans third
  have byte7 : (loaded.byte 7).toNat = payload.length / 2 ^ 24 := by
    rw [show loaded.byte 7 = _ from byte (show 7 < 8 by omega)]
    exact fourth.trans (Nat.mod_eq_of_lt (by omega))
  unfold reportPrefix
  rw [kind]
  dsimp only
  rw [byte4, byte5, byte6, byte7, decoded_bytes]

theorem report_injective {first second : PrefixReport} (same : Host.perform (.report first) = Host.perform (.report second)) :
    first = second := by
  have calls := congrFun same QdaBuf.blank
  injection calls with _ op
  injection op

theorem written_prefix_reported {contents : List UInt8} (stellaris : file.prefixType = .lmdfu) (carried : file.payload? = some payload)
    (short : contents.length < 2 ^ 31) (written : contents = prefixBytes file true ++ rest) (fits : payload.length < 2 ^ 32)
    {verbose : Nat} (asked : verbose ≠ 0) {target : DfuFile} {checkSuffix : SuffixReq} {checkPrefix : PrefixReq}
    {now : History Calls} {before after : QdaBuf} (supplies : Supplies contents now)
    (run : Runs ((dfuLoadFile verbose target checkSuffix checkPrefix).run before) now (.ret (loaded, after))) :
    Reports now (decodedLength payload.length : Nat) := by
  obtain ⟨spare, reading, said, found, announced, parts⟩ := (dfuLoadFile_spec short).returns run supplies
  obtain ⟨parsed, accepted, same, _⟩ := examined_accepted found
  obtain ⟨bytes, total, _⟩ := accepted.fresh
  rw [written] at bytes total
  obtain ⟨kind, size, _⟩ := probePrefix_written (by rw [stellaris]; simp) bytes total
  dsimp only at same
  rw [← same, stellaris] at kind size
  have told : loaded.prefixSize ≠ 0 ∧ verbose ≠ 0 := ⟨by rw [size]; decide, asked⟩
  have stored : loaded.firmware = (prefixBytes file true ++ rest) ++ spare := by
    rw [same, (probePrefix_same parsed).1, bytes]
  rw [Announces, if_pos told] at announced
  obtain ⟨printed, report, rfl⟩ := announced
  rw [reportPrefix_written stellaris carried fits kind stored] at report
  rw [← report_injective report] at parts
  exact ⟨reading, _, parts⟩

end Prefix

theorem storedFile_front (file : DfuFile) (payload : List UInt8) (wantsSuffix : Bool) : ∃ rest,
    storedFile file payload wantsSuffix true = prefixBytes file true ++ rest ∧ payload.length ≤ rest.length := by
  unfold storedFile
  cases wantsSuffix with
  | false => exact ⟨payload, rfl, Nat.le_refl _⟩
  | true =>
    refine ⟨payload ++ suffixBytes file (prefixBytes file true ++ payload), List.append_assoc _ _ _, ?_⟩
    rw [List.length_append]
    exact Nat.le_add_right _ _

/-- The length that is read from the prefix is the one that was written as long as it needs no more than three bytes. -/
theorem reported_length_iff {file : DfuFile} {payload : List UInt8} (stellaris : file.prefixType = .lmdfu)
    (carried : file.payload? = some payload) {wantsSuffix : Bool} {stores : History Calls} {fd : Int} {held kept : QdaBuf}
    (stored : Runs ((dfuStoreFile file wantsSuffix true).run held) stores (.ret ((), kept)))
    (opened : stores.head? = some ⟨.openTruncated file.name, fd⟩) (short : (output fd stores).length < 2 ^ 31)
    {verbose : Nat} (asked : verbose ≠ 0) {target loaded : DfuFile} {checkSuffix : SuffixReq} {checkPrefix : PrefixReq}
    {now : History Calls} {before after : QdaBuf} (supplies : Supplies (output fd stores) now)
    (run : Runs ((dfuLoadFile verbose target checkSuffix checkPrefix).run before) now (.ret (loaded, after))) :
    ∃ length, Reports now length ∧ (length = payload.length ↔ payload.length < 2 ^ 24) := by
  obtain ⟨rest, parts, few⟩ := storedFile_front file payload wantsSuffix
  rw [dfuStoreFile_output carried stored opened] at short supplies
  have length := congrArg List.length parts
  rw [List.length_append] at length
  have fits : payload.length < 2 ^ 32 := by omega
  refine ⟨_, written_prefix_reported stellaris carried short parts fits asked supplies run, ?_⟩
  rw [Int.natCast_inj]
  exact decodedLength_iff fits

theorem threeBytes_reported : ∃ stores fd now loaded length,
    Runs ((dfuStoreFile threeBytes true true).run QdaBuf.blank) stores (.ret ((), QdaBuf.blank)) ∧
    Supplies (output fd stores) now ∧
    Runs ((dfuLoadFile 1 threeBytes .maybe .maybe).run QdaBuf.blank) now (.ret (loaded, QdaBuf.blank)) ∧
    Reports now length ∧ (length = 3 ↔ 3 < 2 ^ 24) := by
  have carried : threeBytes.payload? = some [0x01, 0x02, 0x03] := by decide
  obtain ⟨stores, fd, opened, stored⟩ := @dfuStoreFile_occurs threeBytes QdaBuf.blank _ carried true true
  have short : (output fd stores).length < 2 ^ 31 := by
    rw [dfuStoreFile_output carried stored opened]
    decide +kernel
  obtain ⟨now, loaded, supplies, run⟩ := stored_loads carried stored opened short (show SuffixReq.maybe ≠ .no by decide) 1
    threeBytes QdaBuf.blank
  obtain ⟨length, reports, same⟩ := reported_length_iff rfl carried stored opened short (show 1 ≠ 0 by omega) supplies run
  exact ⟨stores, fd, now, loaded, length, stored, supplies, run, reports, same⟩

/-- An image for a Stellaris device with nothing but zeros in it. -/
def zeros (length : Nat) : DfuFile :=
  { DfuFile.zero "image.dfu" with
    firmware := List.replicate length 0, total := length, prefixType := .lmdfu }

theorem zeros_carried (length : Nat) : (zeros length).payload? = some (List.replicate length 0) :=
  bare_payload rfl rfl (congrArg Int.ofNat List.length_replicate.symm)

/-- Of sixteen mebibytes sixteen kibibytes are reported. -/
theorem sixteen_mebibytes_misread : ∃ stores fd now loaded, (zeros (2 ^ 24)).prefixType = .lmdfu ∧
    (zeros (2 ^ 24)).payload? = some (List.replicate (2 ^ 24) 0) ∧
    Runs ((dfuStoreFile (zeros (2 ^ 24)) true true).run QdaBuf.blank) stores (.ret ((), QdaBuf.blank)) ∧
    stores.head? = some ⟨.openTruncated "image.dfu", fd⟩ ∧ (output fd stores).length < 2 ^ 31 ∧
    Supplies (output fd stores) now ∧
    Runs ((dfuLoadFile 1 (zeros (2 ^ 24)) .maybe .maybe).run QdaBuf.blank) now (.ret (loaded, QdaBuf.blank)) ∧
    Reports now (2 ^ 14) ∧ ¬Reports now (2 ^ 24) := by
  have misread (length : Nat) (large : length = 2 ^ 24) : ∃ stores fd now loaded, (zeros length).prefixType = .lmdfu ∧
      (zeros length).payload? = some (List.replicate length 0) ∧
      Runs ((dfuStoreFile (zeros length) true true).run QdaBuf.blank) stores (.ret ((), QdaBuf.blank)) ∧
      stores.head? = some ⟨.openTruncated "image.dfu", fd⟩ ∧ (output fd stores).length < 2 ^ 31 ∧
      Supplies (output fd stores) now ∧
      Runs ((dfuLoadFile 1 (zeros length) .maybe .maybe).run QdaBuf.blank) now (.ret (loaded, QdaBuf.blank)) ∧
      Reports now (2 ^ 14) ∧ ¬Reports now (2 ^ 24) := by
    have carried := zeros_carried length
    obtain ⟨stores, fd, opened, stored⟩ := @dfuStoreFile_occurs (zeros length) QdaBuf.blank _ carried true true
    have written := dfuStoreFile_output carried stored opened
    have short : (output fd stores).length < 2 ^ 31 := by
      have size := storedFile_size (zeros length) (List.replicate length 0) true true
      rw [List.length_replicate] at size
      rw [written]
      omega
    obtain ⟨now, loaded, supplies, run⟩ := stored_loads carried stored opened short (show SuffixReq.maybe ≠ .no by decide) 1
      (zeros length) QdaBuf.blank
    obtain ⟨rest, parts, _⟩ := storedFile_front (zeros length) (List.replicate length 0) true
    have reports := written_prefix_reported rfl carried short (written.trans parts) (by rw [List.length_replicate]; omega)
      (show 1 ≠ 0 by omega) supplies run
    rw [List.length_replicate, large] at reports
    refine ⟨stores, fd, now, loaded, rfl, carried, stored, opened, short, supplies, run, reports, ?_⟩
    intro right
    have same := reports.unique right
    revert same
    decide
  exact misread (2 ^ 24) rfl

end DfuUtilQda.Dfu

import DfuUtilQda.Machine.LittleEndian
import DfuUtilQda.Proofs.FileParse

/-! What `dfu_store_file` writes: the prefix, the payload and the suffix, with a checksum
that is continued from one write to the next. -/

namespace DfuUtilQda.Dfu
open Interaction Machine Qda Host

/-- The prefix that is written. -/
def prefixBytes (file : DfuFile) (wantsPrefix : Bool) : List UInt8 :=
  if wantsPrefix then
    match file.prefixType with
    | .lmdfu => lmdfuPrefix file
    | .lpcdfuUnencrypted => lpcdfuPrefix file
    | .zero => []
  else []

/-- The suffix that is written, with a checksum of all that precedes it. -/
def suffixBytes (file : DfuFile) (front : List UInt8) : List UInt8 :=
  dfuSuffix file ++ crcBytes ((front ++ dfuSuffix file).foldl crc32Byte 0xffffffff)

/-- The file as it is stored. -/
def storedFile (file : DfuFile) (payload : List UInt8) (wantsSuffix wantsPrefix : Bool) : List UInt8 :=
  let front := prefixBytes file wantsPrefix ++ payload
  if wantsSuffix then front ++ suffixBytes file front else front

theorem payload_size {file : DfuFile} {payload : List UInt8} (carried : file.payload? = some payload) :
    file.total - file.prefixSize - file.suffixSize = payload.length := by
  unfold DfuFile.payload? at carried
  dsimp only at carried
  split at carried
  · cases carried
  next nonneg =>
    rw [Pointer.load_length carried]
    omega

section Runs

variable {file : DfuFile} {fd : Int} {crc : UInt32} {held kept : QdaBuf} {now : History Calls}

@[simp] theorem output_nil : output fd [] = [] := rfl

theorem output_append (early late : History Calls) : output fd (early ++ late) = output fd early ++ output fd late :=
  List.flatMap_append

@[simp] theorem output_write (data : List UInt8) (written : Int) : output fd [⟨.write fd data, written⟩] = data := by
  simp [output]

theorem fileWrite_runs {data : List UInt8} {value : UInt32}
    (run : Runs ((dfuFileWriteCrc fd crc data).run held) now (.ret (value, kept))) :
    output fd now = data ∧ value = data.foldl crc32Byte crc ∧ kept = held := by
  obtain ⟨written, later, rfl, rest⟩ := (runs_perform_seq _ _ _ _ _).mp run
  split at rest
  · exact absurd rest runs_exit
  · obtain ⟨rfl, same⟩ := (runs_pure _ _).mp rest
    cases same
    exact ⟨output_write data written, rfl, rfl⟩

theorem writePrefix_runs {wantsPrefix : Bool} {value : UInt32}
    (run : Runs ((if wantsPrefix then writePrefix file fd crc else pure crc : Host.Code UInt32).run held) now (.ret (value, kept))) :
    output fd now = prefixBytes file wantsPrefix ∧ value = (prefixBytes file wantsPrefix).foldl crc32Byte crc ∧ kept = held := by
  unfold prefixBytes
  cases wantsPrefix with
  | false =>
    obtain ⟨rfl, same⟩ := (runs_pure _ _).mp run
    cases same
    exact ⟨rfl, rfl, rfl⟩
  | true =>
    simp only [if_true, writePrefix] at run ⊢
    cases kind : file.prefixType with
    | zero =>
      rw [kind] at run
      obtain ⟨rfl, same⟩ := (runs_pure _ _).mp run
      cases same
      exact ⟨rfl, rfl, rfl⟩
    | lmdfu =>
      rw [kind] at run
      exact fileWrite_runs run
    | lpcdfuUnencrypted =>
      rw [kind] at run
      exact fileWrite_runs run

theorem writeSuffix_runs (run : Runs ((writeSuffix file fd crc).run held) now (.ret ((), kept))) :
    output fd now = dfuSuffix file ++ crcBytes ((dfuSuffix file).foldl crc32Byte crc) ∧ kept = held := by
  obtain ⟨value, between, early, late, fields, rest, rfl⟩ := (runs_seq _ _ _ _ _).mp run
  obtain ⟨first, rfl, rfl⟩ := fileWrite_runs fields
  obtain ⟨value, after, third, fourth, sum, ends, rfl⟩ := (runs_seq _ _ _ _ _).mp rest
  obtain ⟨second, _, rfl⟩ := fileWrite_runs sum
  obtain ⟨rfl, same⟩ := (runs_pure _ _).mp ends
  cases same
  exact ⟨by rw [List.append_nil, output_append, first, second], rfl⟩

/-- What follows the prefix. -/
def storePayload (file : DfuFile) (wantsSuffix : Bool) (fd : Int) (crc : UInt32) : Host.Code Unit :=
  file.payload?.elim fault fun payload => do
    let crc ← dfuFileWriteCrc fd crc payload
    (if wantsSuffix then writeSuffix file fd crc else pure ())
    perform (.close fd)

theorem dfuStoreFile_eq (wantsSuffix wantsPrefix : Bool) : dfuStoreFile file wantsSuffix wantsPrefix =
    perform (.openTruncated file.name) >>= fun fd => if fd < 0 then Host.exit exIoerr else
      (if wantsPrefix then writePrefix file fd 0xffffffff else pure 0xffffffff) >>= storePayload file wantsSuffix fd := by
  unfold dfuStoreFile storePayload
  cases file.payload? <;> cases wantsPrefix <;> cases wantsSuffix <;> rfl

theorem dfuStoreFile_runs {wantsSuffix wantsPrefix : Bool}
    (run : Runs ((dfuStoreFile file wantsSuffix wantsPrefix).run held) now (.ret ((), kept))) : ∃ fd payload,
      file.payload? = some payload ∧ now.head? = some ⟨.openTruncated file.name, fd⟩ ∧
      output fd now = storedFile file payload wantsSuffix wantsPrefix := by
  rw [dfuStoreFile_eq] at run
  obtain ⟨fd, later, rfl, rest⟩ := (runs_perform_seq _ _ _ _ _).mp run
  split at rest
  · exact absurd rest runs_exit
  obtain ⟨first, between, early, late, ahead, onward, rfl⟩ := (runs_seq _ _ _ _ _).mp rest
  obtain ⟨front, rfl, rfl⟩ := writePrefix_runs ahead
  unfold storePayload at onward
  cases found : file.payload? with
  | none =>
    rw [found, Option.elim_none] at onward
    exact absurd onward runs_fault
  | some payload =>
    rw [found, Option.elim_some] at onward
    obtain ⟨second, after, third, fourth, body, more, rfl⟩ := (runs_seq _ _ _ _ _).mp onward
    obtain ⟨middle, rfl, rfl⟩ := fileWrite_runs body
    obtain ⟨_, last, fifth, sixth, tail, closing, rfl⟩ := (runs_seq _ _ _ _ _).mp more
    obtain ⟨rfl, rfl⟩ := (runs_perform _ _ _ _).mp closing
    have silent : output fd [⟨.close fd, ()⟩] = [] := rfl
    have opening (rest : History Calls) : output fd (⟨.openTruncated file.name, fd⟩ :: rest) = output fd rest := rfl
    refine ⟨fd, payload, rfl, rfl, ?_⟩
    rw [opening, output_append, output_append, output_append, front, middle, silent, List.append_nil, storedFile]
    cases wantsSuffix with
    | false =>
      obtain ⟨rfl, _⟩ := (runs_pure _ _).mp tail
      rw [output_nil, List.append_nil]
      rfl
    | true =>
      obtain ⟨ends, _⟩ := writeSuffix_runs tail
      simp only [ends, if_true, suffixBytes, List.foldl_append, List.append_assoc]

theorem dfuStoreFile_output {payload : List UInt8} (carried : file.payload? = some payload) {wantsSuffix wantsPrefix : Bool}
    (run : Runs ((dfuStoreFile file wantsSuffix wantsPrefix).run held) now (.ret ((), kept)))
    (opened : now.head? = some ⟨.openTruncated file.name, fd⟩) : output fd now = storedFile file payload wantsSuffix wantsPrefix := by
  obtain ⟨_, _, found, head, written⟩ := dfuStoreFile_runs run
  rw [opened] at head
  cases head
  rw [carried] at found
  cases found
  exact written

theorem dfuStoreFile_occurs {payload : List UInt8} (carried : file.payload? = some payload) (wantsSuffix wantsPrefix : Bool) : ∃ now fd,
    now.head? = some ⟨.openTruncated file.name, fd⟩ ∧
    Runs ((dfuStoreFile file wantsSuffix wantsPrefix).run held) now (.ret ((), held)) := by
  have front : ∃ early crc, Runs ((if wantsPrefix then writePrefix file 3 0xffffffff else pure 0xffffffff : Host.Code UInt32).run held)
      early (.ret (crc, held)) := by
    cases wantsPrefix with
    | false => exact ⟨[], _, .here _⟩
    | true =>
      simp only [if_true, writePrefix]
      cases file.prefixType with
      | zero => exact ⟨[], _, .here _⟩
      | lmdfu => exact ⟨_, _, fileWrite_run _ _⟩
      | lpcdfuUnencrypted => exact ⟨_, _, fileWrite_run _ _⟩
  have back (crc : UInt32) : ∃ late, Runs ((if wantsSuffix then writeSuffix file 3 crc else pure () : Host.Code Unit).run held)
      late (.ret ((), held)) := by
    cases wantsSuffix with
    | false => exact ⟨[], .here _⟩
    | true => exact ⟨_, (fileWrite_run _ _).andThen ((fileWrite_run _ _).andThen (.here _))⟩
  obtain ⟨early, crc, first⟩ := front
  obtain ⟨late, last⟩ := back (payload.foldl crc32Byte crc)
  have body : ∃ middle, Runs ((storePayload file wantsSuffix 3 crc).run held) middle (.ret ((), held)) := by
    rw [storePayload, carried, Option.elim_some]
    have closing : Runs ((Host.perform (.close 3)).run held) [⟨.close 3, ()⟩] (.ret ((), held)) := .call (.here _)
    exact ⟨_, (fileWrite_run _ _).andThen (last.andThen closing)⟩
  obtain ⟨middle, rest⟩ := body
  refine ⟨⟨.openTruncated file.name, (3 : Int)⟩ :: (early ++ middle), (3 : Int), rfl, ?_⟩
  rw [dfuStoreFile_eq]
  refine (runs_perform_seq _ _ _ _ _).mpr ⟨(3 : Int), _, rfl, ?_⟩
  rw [if_neg (by simp)]
  exact first.andThen rest

end Runs

theorem word_toNat (first second third fourth : UInt8) :
    ((fourth.toUInt32 <<< 24) + (third.toUInt32 <<< 16) + (second.toUInt32 <<< 8) + first.toUInt32).toNat =
      leNat [first, second, third, fourth] := by
  have low := first.toNat_lt
  have next := second.toNat_lt
  have third_ := third.toNat_lt
  have high := fourth.toNat_lt
  simp only [UInt32.toNat_add, UInt32.toNat_shiftLeft, UInt8.toNat_toUInt32, Nat.shiftLeft_eq, leNat]
  simp
  omega

theorem half_toNat (first second : UInt8) : ((second.toUInt16 <<< 8) + first.toUInt16).toNat = leNat [first, second] := by
  have low := first.toNat_lt
  have high := second.toNat_lt
  simp only [UInt16.toNat_add, UInt16.toNat_shiftLeft, UInt8.toNat_toUInt16, Nat.shiftLeft_eq, leNat]
  simp
  omega

theorem toUInt8_word (word : UInt32) : word.toUInt8 = UInt8.ofNat word.toNat := by
  apply UInt8.toNat_inj.mp
  simp

theorem toUInt8_half (half : UInt16) : half.toUInt8 = UInt8.ofNat half.toNat := by
  apply UInt8.toNat_inj.mp
  simp

theorem wordBytes_toNat (word : UInt32) : (word &&& 0xff).toUInt8.toNat = word.toNat % 256 ∧
    (word >>> 8).toUInt8.toNat = word.toNat / 256 % 256 ∧ (word >>> 16).toUInt8.toNat = word.toNat / 65536 % 256 ∧
    (word >>> 24).toUInt8.toNat = word.toNat / 2 ^ 24 % 256 := by
  refine ⟨?_, ?_, ?_, ?_⟩
  · rw [UInt32.toNat_toUInt8, UInt32.toNat_and]
    change (word.toNat &&& 255) % 256 = _
    rw [show word.toNat &&& 255 = word.toNat % 256 from Nat.and_two_pow_sub_one_eq_mod word.toNat 8, Nat.mod_mod]
  · rw [UInt32.toNat_toUInt8, UInt32.toNat_shiftRight, Nat.shiftRight_eq_div_pow]
    rfl
  · rw [UInt32.toNat_toUInt8, UInt32.toNat_shiftRight, Nat.shiftRight_eq_div_pow]
    rfl
  · rw [UInt32.toNat_toUInt8, UInt32.toNat_shiftRight, Nat.shiftRight_eq_div_pow]
    rfl

theorem crcBytes_eq (crc : UInt32) : crcBytes crc = leBytes 4 crc.toNat := by
  simp only [crcBytes, leBytes, toUInt8_word, UInt32.toNat_shiftRight]
  simp [Nat.shiftRight_eq_div_pow, Nat.div_div_eq_div_mul]

theorem masked_half (half : UInt16) : (half &&& 0xff).toUInt8 = half.toUInt8 := by
  apply UInt8.toNat_inj.mp
  have mask := Nat.and_two_pow_sub_one_eq_mod half.toNat 8
  rw [UInt16.toNat_toUInt8, UInt16.toNat_toUInt8, UInt16.toNat_and]
  change (half.toNat &&& 255) % 256 = _
  rw [show half.toNat &&& 255 = half.toNat % 256 from mask, Nat.mod_mod]

theorem halves_eq (half : UInt16) : [(half &&& 0xff).toUInt8, (half >>> 8).toUInt8] = leBytes 2 half.toNat := by
  rw [masked_half]
  simp only [leBytes, toUInt8_half, UInt16.toNat_shiftRight]
  simp [Nat.shiftRight_eq_div_pow]

theorem word_read (crc : UInt32) : ((crcBytes crc).getD 3 0).toUInt32 <<< 24 + ((crcBytes crc).getD 2 0).toUInt32 <<< 16 +
    ((crcBytes crc).getD 1 0).toUInt32 <<< 8 + ((crcBytes crc).getD 0 0).toUInt32 = crc := by
  apply UInt32.toNat_inj.mp
  rw [word_toNat]
  have bytes := crcBytes_eq crc
  rw [show [(crcBytes crc).getD 0 0, (crcBytes crc).getD 1 0, (crcBytes crc).getD 2 0, (crcBytes crc).getD 3 0] = crcBytes crc from rfl,
    bytes, leNat_leBytes_of_lt crc.toNat_lt]

theorem half_read (half : UInt16) : ((half >>> 8).toUInt8.toUInt16 <<< 8) + (half &&& 0xff).toUInt8.toUInt16 = half := by
  apply UInt16.toNat_inj.mp
  rw [half_toNat, halves_eq, leNat_leBytes_of_lt half.toNat_lt]

section Suffix

variable {body tail : List UInt8}

theorem suffixByte_append (sixteen : tail.length = 16) (index : Nat) : suffixByte (body ++ tail) index = tail.getD index 0 := by
  have start : (body ++ tail).length - 16 + index = body.length + index := by
    rw [List.length_append]
    omega
  rw [suffixByte, start, List.getD_eq_getElem?_getD, List.getD_eq_getElem?_getD, List.getElem?_append_right (Nat.le_add_right _ _),
    Nat.add_sub_cancel_left]

theorem suffixByte_stored (body : List UInt8) (file : DfuFile) (crc : UInt32) (index : Nat) :
    suffixByte (body ++ (dfuSuffix file ++ crcBytes crc)) index = (dfuSuffix file ++ crcBytes crc).getD index 0 :=
  suffixByte_append rfl index

variable {file : DfuFile} {payload : List UInt8} {wantsPrefix : Bool}

theorem storedFile_suffix : HasSuffix (storedFile file payload true wantsPrefix) := by
  rw [storedFile, if_pos rfl, suffixBytes]
  generalize front : prefixBytes file wantsPrefix ++ payload = body
  generalize sum : (body ++ dfuSuffix file).foldl crc32Byte 0xffffffff = crc
  constructor
  · simp [dfuSuffix, crcBytes]
  · simp only [suffixByte_stored]
    exact ⟨rfl, rfl, rfl⟩
  · have front : (body ++ (dfuSuffix file ++ crcBytes crc)).take ((body ++ (dfuSuffix file ++ crcBytes crc)).length - 4) =
        body ++ dfuSuffix file := by
      rw [← List.append_assoc]
      apply List.take_left'
      rw [@List.length_append _ (body ++ dfuSuffix file)]
      rfl
    rw [computedCrc, front, sum, storedCrc]
    simp only [suffixByte_stored]
    exact word_read crc

theorem storedFile_length : suffixLength (storedFile file payload true wantsPrefix) = 16 := by
  rw [storedFile, if_pos rfl, suffixBytes, suffixLength, suffixByte_stored]
  rfl

theorem storedFile_ids (loaded : DfuFile) :
    (loaded.suffixed (storedFile file payload true wantsPrefix)).bcdDFU = file.bcdDFU ∧
    (loaded.suffixed (storedFile file payload true wantsPrefix)).idVendor = file.idVendor ∧
    (loaded.suffixed (storedFile file payload true wantsPrefix)).idProduct = file.idProduct ∧
    (loaded.suffixed (storedFile file payload true wantsPrefix)).bcdDevice = file.bcdDevice := by
  rw [storedFile, if_pos rfl, suffixBytes]
  simp only [DfuFile.suffixed, suffixByte_stored]
  exact ⟨half_read _, half_read _, half_read _, half_read _⟩

end Suffix

end DfuUtilQda.Dfu

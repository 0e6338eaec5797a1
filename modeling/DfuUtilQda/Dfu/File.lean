import DfuUtilQda.Host.Calls

/-! Firmware files: the optional prefix and suffix around the payload, and how they are read and written. -/

namespace DfuUtilQda.Dfu
open Interaction Machine Qda Host

def dfuSuffixLength : Nat := 16
def lmdfuPrefixLength : Nat := 8
def lpcdfuPrefixLength : Nat := 16
def stdinChunkSize : Nat := 65536

def crc32Table : List UInt32 :=
  [0x00000000, 0x77073096, 0xee0e612c, 0x990951ba, 0x076dc419, 0x706af48f, 0xe963a535, 0x9e6495a3,
    0x0edb8832, 0x79dcb8a4, 0xe0d5e91e, 0x97d2d988, 0x09b64c2b, 0x7eb17cbd, 0xe7b82d07, 0x90bf1d91,
    0x1db71064, 0x6ab020f2, 0xf3b97148, 0x84be41de, 0x1adad47d, 0x6ddde4eb, 0xf4d4b551, 0x83d385c7,
    0x136c9856, 0x646ba8c0, 0xfd62f97a, 0x8a65c9ec, 0x14015c4f, 0x63066cd9, 0xfa0f3d63, 0x8d080df5,
    0x3b6e20c8, 0x4c69105e, 0xd56041e4, 0xa2677172, 0x3c03e4d1, 0x4b04d447, 0xd20d85fd, 0xa50ab56b,
    0x35b5a8fa, 0x42b2986c, 0xdbbbc9d6, 0xacbcf940, 0x32d86ce3, 0x45df5c75, 0xdcd60dcf, 0xabd13d59,
    0x26d930ac, 0x51de003a, 0xc8d75180, 0xbfd06116, 0x21b4f4b5, 0x56b3c423, 0xcfba9599, 0xb8bda50f,
    0x2802b89e, 0x5f058808, 0xc60cd9b2, 0xb10be924, 0x2f6f7c87, 0x58684c11, 0xc1611dab, 0xb6662d3d,
    0x76dc4190, 0x01db7106, 0x98d220bc, 0xefd5102a, 0x71b18589, 0x06b6b51f, 0x9fbfe4a5, 0xe8b8d433,
    0x7807c9a2, 0x0f00f934, 0x9609a88e, 0xe10e9818, 0x7f6a0dbb, 0x086d3d2d, 0x91646c97, 0xe6635c01,
    0x6b6b51f4, 0x1c6c6162, 0x856530d8, 0xf262004e, 0x6c0695ed, 0x1b01a57b, 0x8208f4c1, 0xf50fc457,
    0x65b0d9c6, 0x12b7e950, 0x8bbeb8ea, 0xfcb9887c, 0x62dd1ddf, 0x15da2d49, 0x8cd37cf3, 0xfbd44c65,
    0x4db26158, 0x3ab551ce, 0xa3bc0074, 0xd4bb30e2, 0x4adfa541, 0x3dd895d7, 0xa4d1c46d, 0xd3d6f4fb,
    0x4369e96a, 0x346ed9fc, 0xad678846, 0xda60b8d0, 0x44042d73, 0x33031de5, 0xaa0a4c5f, 0xdd0d7cc9,
    0x5005713c, 0x270241aa, 0xbe0b1010, 0xc90c2086, 0x5768b525, 0x206f85b3, 0xb966d409, 0xce61e49f,
    0x5edef90e, 0x29d9c998, 0xb0d09822, 0xc7d7a8b4, 0x59b33d17, 0x2eb40d81, 0xb7bd5c3b, 0xc0ba6cad,
    0xedb88320, 0x9abfb3b6, 0x03b6e20c, 0x74b1d29a, 0xead54739, 0x9dd277af, 0x04db2615, 0x73dc1683,
    0xe3630b12, 0x94643b84, 0x0d6d6a3e, 0x7a6a5aa8, 0xe40ecf0b, 0x9309ff9d, 0x0a00ae27, 0x7d079eb1,
    0xf00f9344, 0x8708a3d2, 0x1e01f268, 0x6906c2fe, 0xf762575d, 0x806567cb, 0x196c3671, 0x6e6b06e7,
    0xfed41b76, 0x89d32be0, 0x10da7a5a, 0x67dd4acc, 0xf9b9df6f, 0x8ebeeff9, 0x17b7be43, 0x60b08ed5,
    0xd6d6a3e8, 0xa1d1937e, 0x38d8c2c4, 0x4fdff252, 0xd1bb67f1, 0xa6bc5767, 0x3fb506dd, 0x48b2364b,
    0xd80d2bda, 0xaf0a1b4c, 0x36034af6, 0x41047a60, 0xdf60efc3, 0xa867df55, 0x316e8eef, 0x4669be79,
    0xcb61b38c, 0xbc66831a, 0x256fd2a0, 0x5268e236, 0xcc0c7795, 0xbb0b4703, 0x220216b9, 0x5505262f,
    0xc5ba3bbe, 0xb2bd0b28, 0x2bb45a92, 0x5cb36a04, 0xc2d7ffa7, 0xb5d0cf31, 0x2cd99e8b, 0x5bdeae1d,
    0x9b64c2b0, 0xec63f226, 0x756aa39c, 0x026d930a, 0x9c0906a9, 0xeb0e363f, 0x72076785, 0x05005713,
    0x95bf4a82, 0xe2b87a14, 0x7bb12bae, 0x0cb61b38, 0x92d28e9b, 0xe5d5be0d, 0x7cdcefb7, 0x0bdbdf21,
    0x86d3d2d4, 0xf1d4e242, 0x68ddb3f8, 0x1fda836e, 0x81be16cd, 0xf6b9265b, 0x6fb077e1, 0x18b74777,
    0x88085ae6, 0xff0f6a70, 0x66063bca, 0x11010b5c, 0x8f659eff, 0xf862ae69, 0x616bffd3, 0x166ccf45,
    0xa00ae278, 0xd70dd2ee, 0x4e048354, 0x3903b3c2, 0xa7672661, 0xd06016f7, 0x4969474d, 0x3e6e77db,
    0xaed16a4a, 0xd9d65adc, 0x40df0b66, 0x37d83bf0, 0xa9bcae53, 0xdebb9ec5, 0x47b2cf7f, 0x30b5ffe9,
    0xbdbdf21c, 0xcabac28a, 0x53b39330, 0x24b4a3a6, 0xbad03605, 0xcdd70693, 0x54de5729, 0x23d967bf,
    0xb3667a2e, 0xc4614ab8, 0x5d681b02, 0x2a6f2b94, 0xb40bbe37, 0xc30c8ea1, 0x5a05df1b, 0x2d02ef8d]

def crc32Byte (accum : UInt32) (delta : UInt8) : UInt32 :=
  crc32Table.getD ((accum ^^^ delta.toUInt32) &&& 0xff).toNat 0 ^^^ (accum >>> 8)

inductive PrefixType where
  | zero | lmdfu | lpcdfuUnencrypted
  deriving DecidableEq

inductive SuffixReq where
  | no | needs | maybe
  deriving DecidableEq

inductive PrefixReq where
  | no | needs | maybe
  deriving DecidableEq

/-- `struct dfu_file`. The block `firmware` points to may be longer than `total`. -/
structure DfuFile where
  name : String
  firmware : List UInt8
  total : Int
  prefixSize : Int
  suffixSize : Int
  lmdfuAddress : UInt32
  prefixType : PrefixType
  dwCRC : UInt32
  bcdDFU : UInt16
  idVendor : UInt16
  idProduct : UInt16
  bcdDevice : UInt16

/-- A byte of the loaded file, as the parsers use it once they have checked the size. -/
def DfuFile.byte (file : DfuFile) (index : Int) : UInt8 := file.firmware.getD index.toNat 0

/-- `true` stands for the failure the C function returns as 1. -/
def probePrefix (file : DfuFile) : Bool × DfuFile :=
  if file.total < lmdfuPrefixLength then (true, file)
  else
    let file :=
      if file.byte 0 = 0x01 ∧ file.byte 1 = 0x00 then
        { file with
          prefixType := .lmdfu
          prefixSize := lmdfuPrefixLength
          lmdfuAddress := (1024 : UInt32) * (((file.byte 3).toUInt32 <<< 8) ||| (file.byte 2).toUInt32) }
      else if file.byte 0 &&& 0x3f = 0x1a ∧ file.byte 1 &&& 0x3f = 0x3f then
        { file with prefixType := .lpcdfuUnencrypted, prefixSize := lpcdfuPrefixLength }
      else file
    (toInt (file.prefixSize + file.suffixSize) > file.total, file)

def dfuMalloc (size : Int) : Host.Code (List UInt8) := do
  match ← perform (.malloc (toSize size)) with
  | some block => return block.val
  | none => Host.exit exSoftware

/-- Writes `buf` and returns the CRC continued over it. -/
def dfuFileWriteCrc (f : Int) (crc : UInt32) (buf : List UInt8) : Host.Code UInt32 := do
  let crc := buf.foldl crc32Byte crc
  let written ← perform (.write f buf)
  if written ≠ buf.length then Host.exit exIoerr else return crc

/-- One round of reading standard input; `lastRead` is the length of the previous chunk. -/
def stdinRound (state : DfuFile × Int) : Host.Code ((DfuFile × Int) ⊕ DfuFile) := do
  let (file, lastRead) := state
  if lastRead = stdinChunkSize then
    match ← perform (.realloc (toSize (toInt (file.total + stdinChunkSize)))) with
    | none => Host.exit exIoerr
    | some fresh =>
      let chunk ← perform (.fread stdinChunkSize)
      match memcpy (patch fresh.val 0 file.firmware) file.total chunk.val with
      | none => fault
      | some firmware =>
        return .inl ({ file with firmware, total := toInt (file.total + chunk.val.length) }, chunk.val.length)
  else return .inr file

def readStdin (file : DfuFile) : Host.Code DfuFile := do
  let block ← dfuMalloc stdinChunkSize
  let chunk ← perform (.fread stdinChunkSize)
  Static.loop stdinRound
    ({ file with firmware := patch block 0 chunk.val, total := chunk.val.length }, chunk.val.length)

def readNamed (file : DfuFile) : Host.Code DfuFile := do
  let f ← perform (.openRead file.name)
  if f < 0 then Host.exit exIoerr
  else
    let offset ← perform (.seekEnd f)
    if toInt offset < 0 ∨ toInt offset ≠ offset then Host.exit exIoerr
    else
      let start ← perform (.seekStart f)
      if start ≠ 0 then Host.exit exIoerr
      else
        let total := toInt offset
        let firmware ← dfuMalloc total
        match ← perform (.read f (toSize total)) with
        | none => Host.exit exIoerr
        | some bytes =>
          if bytes.val.length ≠ total then Host.exit exIoerr
          else
            perform (.close f)
            return { file with firmware := patch firmware 0 bytes.val, total }

/-- Looks for a suffix and says whether it is missing. A file that carries the
signature and the right CRC is taken to have one, and then `exit` answers a bad length. -/
def parseSuffix (file : DfuFile) : Except Nat (Bool × DfuFile) :=
  if file.total < dfuSuffixLength then .ok (true, file)
  else
    let dfusuffix (index : Int) : UInt8 := file.byte (file.total - dfuSuffixLength + index)
    let crc := (file.firmware.take (file.total - 4).toNat).foldl crc32Byte 0xffffffff
    if dfusuffix 10 ≠ 0x44 ∨ dfusuffix 9 ≠ 0x46 ∨ dfusuffix 8 ≠ 0x55 then .ok (true, file)
    else
      let file : DfuFile := { file with
        dwCRC := ((dfusuffix 15).toUInt32 <<< 24) + ((dfusuffix 14).toUInt32 <<< 16) +
          ((dfusuffix 13).toUInt32 <<< 8) + (dfusuffix 12).toUInt32 }
      if file.dwCRC ≠ crc then .ok (true, file)
      else
        let file : DfuFile := { file with
          bcdDFU := ((dfusuffix 7).toUInt16 <<< 8) + (dfusuffix 6).toUInt16
          suffixSize := (dfusuffix 11).toNat }
        if file.suffixSize < dfuSuffixLength then .error exIoerr
        else if file.suffixSize > file.total then .error exIoerr
        else .ok (false, { file with
          idVendor := ((dfusuffix 5).toUInt16 <<< 8) + (dfusuffix 4).toUInt16
          idProduct := ((dfusuffix 3).toUInt16 <<< 8) + (dfusuffix 2).toUInt16
          bcdDevice := ((dfusuffix 1).toUInt16 <<< 8) + (dfusuffix 0).toUInt16 })

/-- Prints what the prefix says about the payload. -/
def reportPrefix (file : DfuFile) : Host.Code Unit :=
  let data (index : Int) : Nat := (file.byte index).toNat
  match file.prefixType with
  | .lmdfu => perform (.report (.lmdfu file.lmdfuAddress
      (data 4 ||| (data 5 <<< 8) ||| (data 6 <<< 16) ||| (data 7 <<< 14) : Nat)))
  | .lpcdfuUnencrypted => perform (.report (.lpcdfu (data 2 >>> 1 ||| (data 3 <<< 7) : Nat)))
  | .zero => Host.exit exIoerr

/-- The checks on a file that has been read into memory. -/
def checkFile (verbose : Nat) (file : DfuFile) (checkSuffix : SuffixReq) (checkPrefix : PrefixReq) : Host.Code DfuFile :=
  match parseSuffix file with
  | .error code => Host.exit code
  | .ok (missing, file) =>
    if missing = true ∧ checkSuffix = .needs then Host.exit exIoerr
    else if missing = false ∧ checkSuffix = .no then Host.exit exSoftware
    else
      let (res, file) := probePrefix file
      if (res = true ∨ file.prefixSize = 0) ∧ checkPrefix = .needs then Host.exit exIoerr
      else if file.prefixSize ≠ 0 ∧ checkPrefix = .no then Host.exit exIoerr
      else do
        if file.prefixSize ≠ 0 ∧ verbose ≠ 0 then reportPrefix file
        return file

/-- The fields that say what was found in a file, before anything has been. -/
def DfuFile.unread (file : DfuFile) : DfuFile :=
  { file with
    prefixSize := 0, suffixSize := 0
    bcdDFU := 0, idVendor := 0xffff, idProduct := 0xffff, bcdDevice := 0xffff
    lmdfuAddress := 0 }

/-- Standard input is never required to carry a suffix. -/
def dfuLoadFile (verbose : Nat) (file : DfuFile) (checkSuffix : SuffixReq) (checkPrefix : PrefixReq) :
    Host.Code DfuFile := do
  if file.name = "-" then
    let file ← readStdin file.unread
    checkFile verbose file .maybe checkPrefix
  else
    let file ← readNamed file.unread
    checkFile verbose file checkSuffix checkPrefix

def lmdfuPrefix (file : DfuFile) : List UInt8 :=
  let addr := file.lmdfuAddress / 1024
  let len := UInt32.ofInt (file.total - file.prefixSize - file.suffixSize)
  [0x01, 0x00, (addr &&& 0xff).toUInt8, (addr >>> 8).toUInt8,
    (len &&& 0xff).toUInt8, (len >>> 8).toUInt8, (len >>> 16).toUInt8, (len >>> 24).toUInt8]

/-- The payload is counted together with the prefix and in units of 512 bytes. -/
def lpcdfuPrefix (file : DfuFile) : List UInt8 :=
  let len := UInt32.ofInt ((toInt (file.total - file.suffixSize + 511)).tdiv 512)
  [0x1a, 0x3f, (len &&& 0xff).toUInt8, ((len >>> 8) &&& 0xff).toUInt8] ++ List.replicate 8 0 ++ List.replicate 4 0xff

/-- The suffix without its CRC. -/
def dfuSuffix (file : DfuFile) : List UInt8 :=
  [(file.bcdDevice &&& 0xff).toUInt8, (file.bcdDevice >>> 8).toUInt8,
    (file.idProduct &&& 0xff).toUInt8, (file.idProduct >>> 8).toUInt8,
    (file.idVendor &&& 0xff).toUInt8, (file.idVendor >>> 8).toUInt8,
    (file.bcdDFU &&& 0xff).toUInt8, (file.bcdDFU >>> 8).toUInt8,
    0x55, 0x46, 0x44, UInt8.ofNat dfuSuffixLength]

def crcBytes (crc : UInt32) : List UInt8 :=
  [crc.toUInt8, (crc >>> 8).toUInt8, (crc >>> 16).toUInt8, (crc >>> 24).toUInt8]

/-- The bytes between prefix and suffix; a negative size would have no end. -/
def DfuFile.payload? (file : DfuFile) : Option (List UInt8) :=
  let size := file.total - file.prefixSize - file.suffixSize
  if size < 0 then none else Pointer.load ⟨file.firmware, file.prefixSize⟩ size.toNat

def writePrefix (file : DfuFile) (f : Int) (crc : UInt32) : Host.Code UInt32 :=
  match file.prefixType with
  | .lmdfu => dfuFileWriteCrc f crc (lmdfuPrefix file)
  | .lpcdfuUnencrypted => dfuFileWriteCrc f crc (lpcdfuPrefix file)
  | .zero => return crc

def writeSuffix (file : DfuFile) (f : Int) (crc : UInt32) : Host.Code Unit := do
  let crc ← dfuFileWriteCrc f crc (dfuSuffix file)
  let _ ← dfuFileWriteCrc f crc (crcBytes crc)

def dfuStoreFile (file : DfuFile) (wantsSuffix wantsPrefix : Bool) : Host.Code Unit := do
  let f ← perform (.openTruncated file.name)
  if f < 0 then Host.exit exIoerr
  else
    let crc ← if wantsPrefix then writePrefix file f 0xffffffff else pure 0xffffffff
    match file.payload? with
    | none => fault
    | some payload =>
      let crc ← dfuFileWriteCrc f crc payload
      if wantsSuffix then writeSuffix file f crc
      perform (.close f)

end DfuUtilQda.Dfu

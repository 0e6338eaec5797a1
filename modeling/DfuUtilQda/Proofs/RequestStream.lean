import DfuUtilQda.Proofs.DeviceRuns
import DfuUtilQda.Proofs.Download
import Mathlib.Data.List.Range

/-! The DNLOAD requests of a download, for a file that is whole and a transfer size
that fits its field: the image in order, block by block, and an empty request at its end. -/

namespace DfuUtilQda.Dfu
open Interaction Machine Qda Host

/-- A DNLOAD request as the device decodes it. -/
structure DnloadReq where
  dataLen : UInt16
  blockNum : UInt16
  data : List UInt8

def dnload? (exchange : Exchange) : Option DnloadReq :=
  if exchange.type = qdaPktDfuDnloadReq then some {
    dataLen := UInt16.ofNat (leAt exchange.request 4 2)
    blockNum := UInt16.ofNat (leAt exchange.request 6 2)
    data := exchange.request.drop 8 }
  else none

def dnloads (exchanges : List Exchange) : List DnloadReq := exchanges.filterMap dnload?

@[simp] theorem dnload_request (len transaction : UInt16) (data : List UInt8) (response : Option QdaBuf) :
    dnload? ⟨dnloadRequest len transaction data, response⟩ = some ⟨len, transaction, data⟩ := by
  have first := leAt_append (leBytes 4 qdaPktDfuDnloadReq.toNat) (leBytes 2 len.toNat) (leBytes 2 transaction.toNat ++ data)
    2 (leBytes_length 2 _)
  have second := leAt_append (leBytes 4 qdaPktDfuDnloadReq.toNat ++ leBytes 2 len.toNat) (leBytes 2 transaction.toNat) data
    2 (leBytes_length 2 _)
  have whole : dnloadRequest len transaction data = leBytes 4 qdaPktDfuDnloadReq.toNat ++ leBytes 2 len.toNat ++
      leBytes 2 transaction.toNat ++ data := by
    simp only [dnloadRequest, packet, blockPayload, List.append_assoc]
  have typed : (Exchange.mk (dnloadRequest len transaction data) response).type = qdaPktDfuDnloadReq := type_packet _ _ _
  rw [leBytes_length] at first
  rw [List.length_append, leBytes_length, leBytes_length] at second
  rw [dnload?, if_pos typed]
  congr 2
  · rw [whole, List.append_assoc, List.append_assoc, first, leNat_leBytes_of_lt len.toNat_lt, UInt16.ofNat_toNat]
  · rw [whole, List.append_assoc _ _ data, second, leNat_leBytes_of_lt transaction.toNat_lt, UInt16.ofNat_toNat]

theorem dnload_getstatus (response : Option QdaBuf) : dnload? ⟨getstatusRequest, response⟩ = none :=
  if_neg (by rw [getstatusRequest, type_packet]; decide)

theorem dnload_get {exchange : Exchange} {req : DnloadReq} (is_dnload : dnload? exchange = some req) :
    exchange.type = qdaPktDfuDnloadReq := by
  unfold dnload? at is_dnload
  split at is_dnload
  next same => exact same
  next => cases is_dnload

/-- A request that was refused or did not get the response it needs. -/
def failed (exchange : Exchange) : Prop :=
  if exchange.type = qdaPktDfuDnloadReq then ¬exchange.acknowledged else exchange.report = none

/-- A file whose firmware has been read, and a transfer size that fits its field. -/
structure Fits (file : DfuFile) (xferSize : Int) : Prop where
  suffix : 0 ≤ file.suffixSize ∧ file.suffixSize ≤ file.total
  total : file.total < 2 ^ 31
  firmware : file.total ≤ file.firmware.length
  xferSize : 1 ≤ xferSize ∧ xferSize ≤ 65535

/-- What is sent of a file: all of it but its suffix. -/
def image (file : DfuFile) : List UInt8 := file.firmware.take (file.total - file.suffixSize).toNat

def imageBlock (file : DfuFile) (xferSize : Int) (k : Nat) : List UInt8 :=
  ((image file).drop (k * xferSize.toNat)).take xferSize.toNat

/-- The DNLOAD request with number `k`, counted from zero. -/
def planned (file : DfuFile) (xferSize : Int) (k : Nat) : DnloadReq where
  dataLen := UInt16.ofNat (imageBlock file xferSize k).length
  blockNum := UInt16.ofNat k
  data := imageBlock file xferSize k

section Sizes

variable {file : DfuFile} {xferSize : Int} (fits : Fits file xferSize)
include fits

theorem Fits.image_length : ((image file).length : Int) = file.total - file.suffixSize := by
  have := fits.suffix
  have := fits.firmware
  rw [image, List.length_take]
  omega

theorem Fits.expected : expectedSize file = (image file).length := by
  have := fits.suffix
  have := fits.total
  rw [expectedSize, fits.image_length, toInt_of_range (by omega) (by omega)]

theorem Fits.image_short : ((image file).length : Int) < 2 ^ 31 := by
  have := fits.suffix
  have := fits.total
  rw [fits.image_length]
  omega

theorem Fits.chunk {s : Progress} {k : Nat} (there : s.bytesSent = min (k * xferSize.toNat) (image file).length) :
    chunkSize file xferSize s = (imageBlock file xferSize k).length := by
  have expected : toInt (file.total - file.suffixSize) = (image file).length := fits.expected
  have short := fits.image_short
  have := fits.xferSize
  have left : toInt ((image file).length - s.bytesSent) = (image file).length - s.bytesSent :=
    toInt_of_range (by omega) (by omega)
  simp only [chunkSize, expected, left, imageBlock, List.length_take, List.length_drop]
  split <;> omega

theorem Fits.progress_eq (k : Nat) : progress file xferSize k =
    { bytesSent := (min (k * xferSize.toNat) (image file).length : Nat)
      buf := ⟨file.firmware, (min (k * xferSize.toNat) (image file).length : Nat)⟩
      transaction := UInt16.ofNat k } := by
  induction k with
  | zero => simp [progress, Progress.start]
  | succ k ih =>
    have chunk := fits.chunk (congrArg Progress.bytesSent ih)
    rw [ih] at chunk
    have short := fits.image_short
    have step : min (k * xferSize.toNat) (image file).length + (imageBlock file xferSize k).length =
        min ((k + 1) * xferSize.toNat) (image file).length := by
      simp only [imageBlock, List.length_take, List.length_drop, Nat.succ_mul]
      omega
    have sum : ((min (k * xferSize.toNat) (image file).length : Nat) : Int) + (imageBlock file xferSize k).length =
        (min ((k + 1) * xferSize.toNat) (image file).length : Nat) := by
      rw [← step]
      exact (Int.natCast_add _ _).symm
    simp only [progress, Progress.next, ih, chunk, Pointer.advance, sum, Progress.mk.injEq, true_and]
    exact ⟨toInt_of_range (by omega) (by omega), (UInt16.ofNat_add k 1).symm⟩

theorem Fits.more_iff (k : Nat) : More file xferSize k ↔ k * xferSize.toNat < (image file).length := by
  rw [More, fits.progress_eq, fits.expected]
  simp only
  omega

theorem Fits.nothing_iff (k : Nat) : imageBlock file xferSize k = [] ↔ ¬More file xferSize k := by
  have := fits.xferSize
  rw [fits.more_iff, ← List.length_eq_zero_iff, imageBlock, List.length_take, List.length_drop]
  omega

theorem Fits.length_eq (k : Nat) : blockLength file xferSize k = UInt16.ofNat (imageBlock file xferSize k).length := by
  rw [blockLength, fits.chunk (congrArg Progress.bytesSent (fits.progress_eq k))]
  apply UInt16.toNat_inj.mp
  rw [UInt16.ofInt, UInt16.toNat_ofNat', UInt16.toNat_ofNat']
  omega

theorem Fits.length_toNat (k : Nat) : (blockLength file xferSize k).toNat = (imageBlock file xferSize k).length := by
  have := fits.xferSize
  rw [fits.length_eq, UInt16.toNat_ofNat', Nat.mod_eq_of_lt]
  rw [imageBlock, List.length_take]
  omega

theorem Fits.source (k : Nat) (more : More file xferSize k) :
    (blockSource file xferSize k).load (blockLength file xferSize k).toNat = some (imageBlock file xferSize k) := by
  have some_ : (imageBlock file xferSize k).length ≠ 0 := by
    rw [Ne, List.length_eq_zero_iff, fits.nothing_iff]
    exact not_not.mpr more
  have below := (fits.more_iff k).mp more
  have inside := fits.firmware
  have length := fits.image_length
  have := fits.suffix
  have chunk := fits.chunk (congrArg Progress.bytesSent (fits.progress_eq k))
  rw [fits.length_toNat, blockSource, chunk, if_pos (by omega), fits.progress_eq, Pointer.load_inside]
  · rw [Nat.min_eq_left (by omega)]
    simp only [imageBlock, image, List.drop_take, List.take_take, List.length_take, List.length_drop]
    congr 2
    omega
  · rw [imageBlock, List.length_take, List.length_drop]
    omega

end Sizes

/-- No DNLOAD is asked for any more. -/
def Phase.Ending : Phase → Prop
  | .ready _ | .polling _ => False
  | .manifesting _ | .finished _ _ | .stopped _ | .aborted _ => True

/-- The requests made before a phase, the numbers of those that are DNLOADs, and that none of them failed. -/
structure Stream (file : DfuFile) (xferSize : Int) (exchanges : List Exchange) (phase : Phase) : Prop where
  sent : ∃ count, dnloads exchanges = (List.range count).map (planned file xferSize) ∧
    ∀ blocks, phase = .ready blocks ∨ phase = .polling blocks → count = blocks
  fits : ∀ req ∈ dnloads exchanges, req.data.length ≤ qdaBufSize - 8
  unfailed : ¬phase.Ending → ∀ exchange ∈ exchanges, ¬failed exchange
  settled : ∀ blocks, phase = .ready blocks → exchanges = [] ∨ ∃ front last dst, exchanges = front ++ [last] ∧
    last.request = getstatusRequest ∧ last.report = some dst ∧ settled dst ∧ dst.bStatus = dfuStatusOk

section Stream

variable {file : DfuFile} {xferSize : Int} {exchanges before after : List Exchange} {exchange : Exchange} {phase : Phase}

theorem Download.init (download : Download file xferSize (exchanges ++ [exchange])) : Download file xferSize exchanges ∧
    (phaseAfter file xferSize exchanges).Asks file xferSize exchange.request := by
  refine ⟨fun before found after split => ?_, download exchanges exchange [] rfl⟩
  exact download before found (after ++ [exchange]) (by rw [split, List.append_assoc, List.cons_append])

theorem Download.front (download : Download file xferSize (before ++ after)) : Download file xferSize before := by
  intro early found late split
  exact download early found (late ++ after) (by rw [split, List.append_assoc, List.cons_append])

theorem Phase.Ending.step (ending : phase.Ending) : (phase.step file xferSize exchange).Ending := by
  cases phase with
  | ready | polling => exact ending.elim
  | manifesting =>
    simp only [Phase.step]
    split
    · trivial
    · split <;> trivial
  | finished | stopped | aborted => trivial

/-- A DNLOAD is asked for in one kind of phase only, and it is the planned one. -/
theorem Phase.Asks.dnload (fits : Fits file xferSize) (asked : phase.Asks file xferSize exchange.request) :
    (∃ k, phase = .ready k ∧ dnload? exchange = some (planned file xferSize k) ∧
      (imageBlock file xferSize k).length ≤ qdaBufSize - 8) ∨
    ((∀ k, phase ≠ .ready k) ∧ dnload? exchange = none ∧ exchange.request = getstatusRequest) := by
  obtain ⟨request, response⟩ := exchange
  cases phase with
  | ready k =>
    refine Or.inl ⟨k, rfl, ?_⟩
    simp only [Phase.Asks] at asked
    split at asked
    next more =>
      obtain ⟨short, bytes, loaded, rfl⟩ := asked
      rw [fits.source k more] at loaded
      cases loaded
      rw [fits.length_toNat] at short
      refine ⟨?_, short⟩
      rw [dnload_request, fits.length_eq, fits.progress_eq, planned]
    next all =>
      have nothing := (fits.nothing_iff k).mpr all
      rw [asked, dnload_request, fits.progress_eq, planned, nothing]
      exact ⟨rfl, Nat.zero_le _⟩
  | polling | manifesting =>
    cases asked
    exact Or.inr ⟨by simp, dnload_getstatus response, rfl⟩
  | finished | stopped | aborted => exact asked.elim

theorem dnloads_snoc : dnloads (exchanges ++ [exchange]) = dnloads exchanges ++ (dnload? exchange).toList := by
  cases found : dnload? exchange <;> simp [dnloads, found]

theorem Phase.step_ready {k : Nat} (comes : phase.step file xferSize exchange = .ready k) :
    phase = .polling k ∧ ∃ dst, exchange.report = some dst ∧ settled dst ∧ dst.bStatus = dfuStatusOk := by
  unfold Phase.step at comes
  repeat' split at comes
  all_goals cases comes
  next dst reported done good => exact ⟨rfl, dst, reported, done, good⟩

theorem Phase.step_polling {k : Nat} (comes : phase.step file xferSize exchange = .polling k) :
    (∃ blocks, phase = .ready blocks ∧ k = blocks + 1 ∧ exchange.acknowledged) ∨
    (phase = .polling k ∧ exchange.report ≠ none) := by
  unfold Phase.step at comes
  repeat' split at comes
  all_goals cases comes
  next blocks _ taken => exact Or.inl ⟨blocks, rfl, rfl, taken⟩
  next dst reported _ => exact Or.inr ⟨rfl, by simp [reported]⟩

theorem getstatus_fails (asked : exchange.request = getstatusRequest) : failed exchange ↔ exchange.report = none := by
  have typed : exchange.type ≠ qdaPktDfuDnloadReq := by
    rw [Exchange.type, asked]
    decide
  rw [failed, if_neg typed]

theorem dnload_fails {req : DnloadReq} (asked : dnload? exchange = some req) : failed exchange ↔ ¬exchange.acknowledged := by
  rw [failed, if_pos (dnload_get asked)]

theorem Phase.going (phase : Phase) (going : ¬phase.Ending) : ∃ k, phase = .ready k ∨ phase = .polling k := by
  cases phase with
  | ready k => exact ⟨k, .inl rfl⟩
  | polling k => exact ⟨k, .inr rfl⟩
  | manifesting | finished | stopped | aborted => exact absurd trivial going

theorem Stream.step (stream : Stream file xferSize exchanges phase) (fits : Fits file xferSize)
    (asked : phase.Asks file xferSize exchange.request) :
    Stream file xferSize (exchanges ++ [exchange]) (phase.step file xferSize exchange) := by
  obtain ⟨count, sent, current⟩ := stream.sent
  obtain ⟨k, rfl, dnload, short⟩ | ⟨busy, other, request⟩ := asked.dnload fits
  · -- A block: the phase after it is not `ready`, and is `polling` when it was acknowledged.
    obtain rfl := current k (.inl rfl)
    have taken (blocks : Nat) (comes : (Phase.ready count).step file xferSize exchange = .polling blocks) :
        blocks = count + 1 ∧ exchange.acknowledged := by
      obtain ⟨_, same, rfl, taken⟩ | ⟨same, _⟩ := Phase.step_polling comes
      · cases same
        exact ⟨rfl, taken⟩
      · cases same
    have never (blocks : Nat) : (Phase.ready count).step file xferSize exchange ≠ .ready blocks := by
      intro comes
      cases (Phase.step_ready comes).1
    refine ⟨⟨count + 1, ?_, ?_⟩, ?_, fun going found member => ?_, fun blocks comes => absurd comes (never blocks)⟩
    · rw [dnloads_snoc, dnload, sent, List.range_succ, List.map_append]
      rfl
    · rintro blocks (ready | polling)
      · exact absurd ready (never blocks)
      · exact (taken blocks polling).1.symm
    · intro req member
      rw [dnloads_snoc, dnload] at member
      rcases List.mem_append.mp member with earlier | last
      · exact stream.fits req earlier
      · cases List.mem_singleton.mp last
        exact short
    · rcases List.mem_append.mp member with earlier | last
      · exact stream.unfailed id found earlier
      · cases List.mem_singleton.mp last
        obtain ⟨blocks, ready | polling⟩ := Phase.going _ going
        · exact absurd ready (never blocks)
        · exact fun fails => (dnload_fails dnload).mp fails (taken blocks polling).2
  · have before (blocks : Nat) (comes : phase.step file xferSize exchange = .ready blocks ∨
        phase.step file xferSize exchange = .polling blocks) : phase = .polling blocks ∧ exchange.report ≠ none := by
      rcases comes with ready | polling
      · obtain ⟨same, dst, reported, _⟩ := Phase.step_ready ready
        exact ⟨same, by simp [reported]⟩
      · obtain ⟨early, same, _⟩ | found := Phase.step_polling polling
        · exact absurd same (busy early)
        · exact found
    refine ⟨⟨count, ?_, fun blocks comes => current blocks (.inr (before blocks comes).1)⟩, ?_, fun going found member => ?_, ?_⟩
    · rw [dnloads_snoc, other, sent]
      exact List.append_nil _
    · intro req member
      rw [dnloads_snoc, other] at member
      exact stream.fits req ((List.append_nil (dnloads exchanges)) ▸ member)
    · rcases List.mem_append.mp member with earlier | last
      · exact stream.unfailed (fun ending => going ending.step) found earlier
      · cases List.mem_singleton.mp last
        obtain ⟨blocks, comes⟩ := Phase.going _ going
        exact fun fails => (before blocks comes).2 ((getstatus_fails request).mp fails)
    · intro blocks ready
      obtain ⟨_, dst, reported, done, good⟩ := Phase.step_ready ready
      exact Or.inr ⟨exchanges, exchange, dst, rfl, request, reported, done, good⟩

theorem Stream.start : Stream file xferSize [] (.ready 0) := by
  refine ⟨⟨0, rfl, ?_⟩, by simp [dnloads], by simp, fun _ _ => Or.inl rfl⟩
  rintro blocks (same | same)
  · cases same
    rfl
  · cases same

theorem Download.stream (fits : Fits file xferSize) (download : Download file xferSize exchanges) :
    Stream file xferSize exchanges (phaseAfter file xferSize exchanges) := by
  induction exchanges using List.reverseRecOn with
  | nil => exact Stream.start
  | append_singleton front last ih =>
    obtain ⟨earlier, asked⟩ := download.init
    rw [phaseAfter_snoc]
    exact (ih earlier).step fits asked

theorem phaseAfter_append : phaseAfter file xferSize (before ++ after) =
    after.foldl (Phase.step file xferSize) (phaseAfter file xferSize before) := List.foldl_append

theorem Download.ended (fits : Fits file xferSize) (download : Download file xferSize (before ++ after))
    (ending : (phaseAfter file xferSize before).Ending) : dnloads after = [] := by
  induction after using List.reverseRecOn with
  | nil => rfl
  | append_singleton front last ih =>
    rw [← List.append_assoc] at download
    obtain ⟨earlier, asked⟩ := download.init
    have still : (phaseAfter file xferSize (before ++ front)).Ending := by
      rw [phaseAfter_append]
      clear asked earlier download ih
      induction front using List.reverseRecOn with
      | nil => exact ending
      | append_singleton _ _ ih =>
        rw [List.foldl_append]
        exact ih.step
    obtain ⟨k, ready, _⟩ | ⟨_, other, _⟩ := asked.dnload fits
    · rw [ready] at still
      exact still.elim
    · rw [dnloads_snoc, other, ih earlier]
      rfl

theorem flatten_blocks (count : Nat) :
    ((List.range count).map (imageBlock file xferSize)).flatten = (image file).take (count * xferSize.toNat) := by
  induction count with
  | zero => simp
  | succ count ih =>
    rw [List.range_succ, List.map_append, List.flatten_append, ih, Nat.succ_mul, List.take_add]
    simp [imageBlock]

/-- The exchanges before a DNLOAD all succeeded, and the last of them showed that the device
had taken what it got. An empty DNLOAD comes when the image is complete, and is the last one. -/
theorem Download.issued (fits : Fits file xferSize) (download : Download file xferSize (before ++ exchange :: after))
    {req : DnloadReq} (is_dnload : dnload? exchange = some req) :
    (∀ earlier ∈ before, ¬failed earlier) ∧
    (before = [] ∨ ∃ front last dst, before = front ++ [last] ∧ last.request = getstatusRequest ∧
      last.report = some dst ∧ settled dst ∧ dst.bStatus = dfuStatusOk) ∧
    (req.data = [] → ((dnloads before).map DnloadReq.data).flatten = image file ∧ dnloads after = []) := by
  have asked := download before exchange after rfl
  have stream := download.front.stream fits
  obtain ⟨k, ready, dnload, _⟩ | ⟨_, other, _⟩ := asked.dnload fits
  · rw [dnload] at is_dnload
    cases is_dnload
    refine ⟨stream.unfailed (by simp [ready, Phase.Ending]), stream.settled k ready, fun nothing => ?_⟩
    have all := (fits.nothing_iff k).mp nothing
    obtain ⟨count, sent, current⟩ := stream.sent
    obtain rfl := current k (.inl ready)
    constructor
    · rw [sent, List.map_map]
      refine (flatten_blocks count).trans (List.take_of_length_le ?_)
      have := (fits.more_iff count).not.mp all
      omega
    · have later : Download file xferSize ((before ++ [exchange]) ++ after) := by simpa using download
      refine later.ended fits ?_
      rw [phaseAfter_snoc, ready, Phase.step, if_neg all]
      split <;> trivial
  · rw [other] at is_dnload
    cases is_dnload

end Stream

section Run

variable {file : DfuFile} {xferSize : Int} (qdaBuf : QdaBuf)

/-- A block that a device takes at once. -/
def blockTaken (file : DfuFile) (xferSize : Int) (qdaBuf : QdaBuf) (k : Nat) : History Calls :=
  conversation qdaBuf (dnloadRequest (blockLength file xferSize k) (progress file xferSize k).transaction
    (imageBlock file xferSize k)) acknowledgement ++
  conversation acknowledgement getstatusRequest (statusReport stateDfuDnloadIdle dfuStatusOk)

theorem dnloadRound_run (fits : Fits file xferSize) {k : Nat} (more : More file xferSize k)
    (short : (imageBlock file xferSize k).length ≤ qdaBufSize - 8) :
    Runs ((dnloadRound file xferSize (progress file xferSize k)).run qdaBuf) (blockTaken file xferSize qdaBuf k)
      (.ret (.inl (progress file xferSize (k + 1)), statusReport stateDfuDnloadIdle dfuStatusOk)) := by
  have source := fits.source k more
  have fit : (blockLength file xferSize k).toNat ≤ qdaBufSize - 8 := by rwa [fits.length_toNat]
  have dnload : Runs ((dfuDownload qdaConf (blockLength file xferSize k) (progress file xferSize k).transaction
      (blockSource file xferSize k)).run qdaBuf) _ (.ret (0, acknowledgement)) := download_run qdaBuf fit source
  have polled : Runs (pollStatus.run acknowledgement)
      (conversation acknowledgement getstatusRequest (statusReport stateDfuDnloadIdle dfuStatusOk))
      (.ret (⟨dfuStatusOk, 0, stateDfuDnloadIdle⟩, statusReport stateDfuDnloadIdle dfuStatusOk)) := by
    apply Runs.leave
    rw [← List.append_nil (conversation _ _ _)]
    exact (getStatus_run _ _ _).andThen (.here _)
  have more : (progress file xferSize k).bytesSent < toInt (file.total - file.suffixSize) := more
  rw [dnloadRound, if_pos more, blockTaken]
  refine dnload.andThen ?_
  rw [if_neg (by decide), ← List.append_nil (conversation _ _ _)]
  exact polled.andThen (.here _)

/-- What is left after the image: the empty request, and a device that is done at once. -/
def imageEnded (file : DfuFile) (xferSize : Int) (qdaBuf : QdaBuf) (k : Nat) : History Calls :=
  conversation qdaBuf (dnloadRequest 0 (progress file xferSize k).transaction []) acknowledgement ++
  conversation acknowledgement getstatusRequest (statusReport stateDfuIdle dfuStatusOk)

@[simp] theorem dialogue_blockTaken (now : History Calls) (fits : Fits file xferSize) (k : Nat) :
    dialogue (now ++ blockTaken file xferSize qdaBuf k) = dialogue now ++
      [⟨dnloadRequest (UInt16.ofNat (imageBlock file xferSize k).length) (UInt16.ofNat k) (imageBlock file xferSize k),
        some acknowledgement⟩, ⟨getstatusRequest, some (statusReport stateDfuDnloadIdle dfuStatusOk)⟩] := by
  rw [blockTaken, ← List.append_assoc, dialogue_conversation, dialogue_conversation, List.append_assoc, fits.length_eq,
    fits.progress_eq]
  rfl

@[simp] theorem dialogue_imageEnded (now : History Calls) (fits : Fits file xferSize) (k : Nat) :
    dialogue (now ++ imageEnded file xferSize qdaBuf k) = dialogue now ++
      [⟨dnloadRequest 0 (UInt16.ofNat k) [], some acknowledgement⟩,
        ⟨getstatusRequest, some (statusReport stateDfuIdle dfuStatusOk)⟩] := by
  rw [imageEnded, ← List.append_assoc, dialogue_conversation, dialogue_conversation, List.append_assoc, fits.progress_eq]
  rfl

theorem awaitManifest_run : Runs (awaitManifest.run qdaBuf)
    (conversation qdaBuf getstatusRequest (statusReport stateDfuIdle dfuStatusOk))
    (.ret ((), statusReport stateDfuIdle dfuStatusOk)) := by
  apply Runs.leave
  rw [← List.append_nil (conversation _ _ _)]
  exact (getStatus_run _ _ _).andThen (.here _)

/-- A download of a single block, to a device that takes it. -/
def singleBlock (file : DfuFile) (xferSize : Int) (qdaBuf : QdaBuf) : History Calls :=
  blockTaken file xferSize qdaBuf 0 ++ imageEnded file xferSize (statusReport stateDfuDnloadIdle dfuStatusOk) 1

theorem dialogue_singleBlock (fits : Fits file xferSize) : dialogue (singleBlock file xferSize qdaBuf) =
    [⟨dnloadRequest (UInt16.ofNat (imageBlock file xferSize 0).length) 0 (imageBlock file xferSize 0), some acknowledgement⟩,
      ⟨getstatusRequest, some (statusReport stateDfuDnloadIdle dfuStatusOk)⟩,
      ⟨dnloadRequest 0 1 [], some acknowledgement⟩, ⟨getstatusRequest, some (statusReport stateDfuIdle dfuStatusOk)⟩] := by
  rw [singleBlock, dialogue_imageEnded _ _ fits, ← List.nil_append (blockTaken _ _ _ _), dialogue_blockTaken _ _ fits]
  rfl

theorem singleBlock_run (fits : Fits file xferSize) (some_ : 0 < (image file).length)
    (single : ((image file).length : Int) ≤ xferSize) (short : (image file).length ≤ qdaBufSize - 8) :
    Runs ((dfuloadDoDnload xferSize file).run qdaBuf) (singleBlock file xferSize qdaBuf)
      (.ret ((image file).length, statusReport stateDfuIdle dfuStatusOk)) := by
  have more : More file xferSize 0 := (fits.more_iff 0).mpr (by omega)
  have all : ¬(progress file xferSize 1).bytesSent < toInt (file.total - file.suffixSize) :=
    (fits.more_iff 1).not.mpr (by omega)
  have stopped : Runs ((dnloadRound file xferSize (progress file xferSize 1)).run (statusReport stateDfuDnloadIdle dfuStatusOk)) []
      (.ret (.inr (true, progress file xferSize 1), statusReport stateDfuDnloadIdle dfuStatusOk)) := by
    rw [dnloadRound, if_neg all]
    exact .here _
  have sent : (progress file xferSize 1).bytesSent = (image file).length := by
    rw [fits.progress_eq]
    simp only
    omega
  have fit : (imageBlock file xferSize 0).length ≤ qdaBufSize - 8 := by
    rw [imageBlock, List.length_take, List.length_drop]
    omega
  have loop := (dnloadRound_run qdaBuf fits more fit).again stopped.leave
  have whole : Runs ((dfuloadDoDnload xferSize file).run qdaBuf) (singleBlock file xferSize qdaBuf)
      (.ret ((progress file xferSize 1).bytesSent, statusReport stateDfuIdle dfuStatusOk)) := by
    rw [List.append_nil] at loop
    refine loop.andThen ?_
    simp only [if_true]
    refine (download_run _ (by decide) rfl).andThen ?_
    rw [if_neg (by decide), ← List.append_nil (conversation _ _ _)]
    exact (awaitManifest_run _).andThen (.here _)
  rwa [sent] at whole

/-- A loaded file of one byte. -/
def oneByte : DfuFile := { (DfuFile.zero "firmware.bin").unread with firmware := [0x2a], total := 1 }

theorem oneByte_fits {xferSize : Int} (size : 1 ≤ xferSize ∧ xferSize ≤ 65535) : Fits oneByte xferSize :=
  ⟨by decide, by decide, by decide, size⟩

theorem oneByte_run (size : 1 ≤ xferSize ∧ xferSize ≤ 65535) :
    Runs ((dfuloadDoDnload xferSize oneByte).run qdaBuf) (singleBlock oneByte xferSize qdaBuf)
      (.ret (1, statusReport stateDfuIdle dfuStatusOk)) :=
  singleBlock_run qdaBuf (oneByte_fits size) (by decide) size.1 (by decide)

end Run

/-- The DNLOAD requests of a download, at any moment of it and whatever the device answers. -/
theorem download_request_stream {file : DfuFile} {xferSize : Int} (fits : Fits file xferSize) {qdaBuf : QdaBuf}
    {now : History Calls} {rest : Program Calls (Int × QdaBuf)}
    (run : Runs ((dfuloadDoDnload xferSize file).run qdaBuf) now rest) :
    ((dnloads (dialogue now)).map DnloadReq.data).flatten <+: image file ∧
    (∀ k req, (dnloads (dialogue now))[k]? = some req → req.blockNum = UInt16.ofNat k ∧
      (req.data.length : Int) ≤ min xferSize 8184 ∧ req.dataLen.toNat = req.data.length) ∧
    (∀ before exchange after req, dialogue now = before ++ exchange :: after → dnload? exchange = some req →
      (∀ earlier ∈ before, ¬failed earlier) ∧
      (before = [] ∨ ∃ front last dst, before = front ++ [last] ∧ last.request = getstatusRequest ∧
        last.report = some dst ∧ settled dst ∧ dst.bStatus = dfuStatusOk) ∧
      (req.data = [] → ((dnloads before).map DnloadReq.data).flatten = image file ∧ dnloads after = [])) := by
  have start : At file xferSize (.ready 0) [] := ⟨⟨Download.nil, by simp⟩, rfl⟩
  have kept := (dfuloadDoDnload_spec start).safe run
  obtain ⟨count, sent, _⟩ := (kept.dialogue.stream fits).sent
  refine ⟨?_, fun k req found => ?_, fun before exchange after req split is_dnload => ?_⟩
  · rw [sent, List.map_map]
    exact (flatten_blocks count).symm ▸ List.take_prefix _ _
  · have member := (kept.dialogue.stream fits).fits req (List.mem_of_getElem? found)
    have size := fits.xferSize
    rw [sent, List.getElem?_map] at found
    obtain ⟨number, at_k, rfl⟩ := Option.map_eq_some_iff.mp found
    obtain ⟨inside, rfl⟩ := List.getElem?_eq_some_iff.mp at_k
    rw [List.getElem_range]
    have short : (imageBlock file xferSize k).length ≤ xferSize.toNat := List.length_take_le _ _
    simp only [List.getElem_range, planned, qdaBufSize] at member
    refine ⟨rfl, ?_, ?_⟩
    · simp only [planned]
      omega
    · rw [planned, UInt16.toNat_ofNat', Nat.mod_eq_of_lt (by omega)]
  · exact (split ▸ kept.dialogue).issued fits is_dnload

theorem one_byte_stream :
    ((dnloads (dialogue (singleBlock oneByte 1 QdaBuf.blank))).map DnloadReq.data).flatten <+: [0x2a] ∧
    (dnloads (dialogue (singleBlock oneByte 1 QdaBuf.blank))).length = 2 := by
  have fits : Fits oneByte 1 := oneByte_fits (by decide)
  have stream := (download_request_stream fits (oneByte_run QdaBuf.blank (by decide))).1
  rw [dialogue_singleBlock _ fits] at stream ⊢
  exact ⟨stream, by simp [dnloads, dnload_getstatus]⟩

end DfuUtilQda.Dfu

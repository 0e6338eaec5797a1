import DfuUtilQda.Dfu.Main
import DfuUtilQda.Proofs.Dialogue

/-! What each call to the device adds to the dialogue, and what its result says
about the response. The shim is looked through here and nowhere else. -/

namespace DfuUtilQda.Host
open Interaction Machine Qda Dfu

def getstatusRequest : List UInt8 := packet qdaPktDfuGetstatusReq []
def getstateRequest : List UInt8 := packet qdaPktDfuGetstateReq []
def abortRequest : List UInt8 := packet qdaPktDfuAbort []
def clrstatusRequest : List UInt8 := packet qdaPktDfuClrstatus []
def dfuDescRequest : List UInt8 := packet qdaPktDfuDescReq []
def setAltRequest (alt : UInt8) : List UInt8 := packet qdaPktDfuSetAltSetting [alt]
def resetRequest : List UInt8 := packet qdaPktReset []
def dnloadRequest (len transaction : UInt16) (data : List UInt8) : List UInt8 :=
  packet qdaPktDfuDnloadReq (blockPayload len transaction data)
def uploadRequest (len transaction : UInt16) : List UInt8 := packet qdaPktDfuUploadReq (blockPayload len transaction [])

namespace Kept

variable {safe : List Exchange → Prop} {codes : Nat → Prop} {now : History Calls} {qdaBuf : QdaBuf}

section Commands

variable {request : List UInt8} {expected : UInt32} {post : Int × QdaBuf → History Calls → Prop}

theorem command {program : Bool → Host.Code Int} (kept : Kept safe codes now) (fits : request.length ≤ qdaBufSize)
    (remains : ∀ response, safe (Host.dialogue now ++ [⟨request, response⟩]))
    (result : ∀ ok held, ∃ rc : Int, (program ok).run held = pure (rc, held) ∧ (0 ≤ rc ↔ ok = true))
    (ends : ∀ response rc held later, Kept safe codes later → Host.dialogue later = Host.dialogue now ++ [⟨request, response⟩] →
      (0 ≤ rc ↔ (Exchange.mk request response).answers expected) → post (rc, held) later) :
    wp (Kept safe codes) ((Qda.ask qdaConf request expected >>= program).run qdaBuf) post now := by
  rw [StateT.run_bind, wp_seq]
  refine kept.ask fits remains fun response ok held later safe_ same answers _ => ?_
  obtain ⟨rc, ends_, sign⟩ := result ok held
  rw [ends_, wp_pure]
  exact ⟨safe_, ends response rc held later safe_ same (sign.trans answers)⟩

theorem simple {post : Int × QdaBuf → History Calls → Prop} {type : UInt32} (kept : Kept safe codes now)
    (remains : ∀ response, safe (Host.dialogue now ++ [⟨packet type [], response⟩]))
    (ends : ∀ response rc held later, Kept safe codes later →
      Host.dialogue later = Host.dialogue now ++ [⟨packet type [], response⟩] →
      (0 ≤ rc ↔ (Exchange.mk (packet type []) response).acknowledged) → post (rc, held) later) :
    wp (Kept safe codes) ((simpleRequest qdaConf type).run qdaBuf) post now := by
  rw [simpleRequest, ask_type]
  refine kept.command (by simp [qdaBufSize]) remains ?_ ends
  intro ok held
  cases ok
  · exact ⟨-1, rfl, by simp⟩
  · exact ⟨0, rfl, by simp⟩

theorem abort (kept : Kept safe codes now) (remains : ∀ response, safe (Host.dialogue now ++ [⟨abortRequest, response⟩]))
    (ends : ∀ response rc held later, Kept safe codes later →
      Host.dialogue later = Host.dialogue now ++ [⟨abortRequest, response⟩] →
      (0 ≤ rc ↔ (Exchange.mk abortRequest response).acknowledged) → post (rc, held) later) :
    wp (Kept safe codes) ((dfuAbort qdaConf).run qdaBuf) post now := kept.simple remains ends

theorem setAltSetting {alt : UInt8} (kept : Kept safe codes now)
    (remains : ∀ response, safe (Host.dialogue now ++ [⟨setAltRequest alt, response⟩]))
    (ends : ∀ response rc held later, Kept safe codes later →
      Host.dialogue later = Host.dialogue now ++ [⟨setAltRequest alt, response⟩] →
      (0 ≤ rc ↔ (Exchange.mk (setAltRequest alt) response).acknowledged) → post (rc, held) later) :
    wp (Kept safe codes) ((qdaSetAltSetting qdaConf alt).run qdaBuf) post now := by
  rw [qdaSetAltSetting, ask_alt]
  refine kept.command (by simp [qdaBufSize]) remains ?_ ends
  intro ok held
  cases ok
  · exact ⟨-1, rfl, by simp⟩
  · exact ⟨0, rfl, by simp⟩

/-- Clearing the status, which is a GETSTATE request here. -/
theorem clearStatus (kept : Kept safe codes now)
    (remains : ∀ response, safe (Host.dialogue now ++ [⟨getstateRequest, response⟩]))
    (ends : ∀ response rc held later, Kept safe codes later →
      Host.dialogue later = Host.dialogue now ++ [⟨getstateRequest, response⟩] →
      (0 ≤ rc ↔ (Exchange.mk getstateRequest response).answers qdaPktDfuGetstateResp) → post (rc, held) later) :
    wp (Kept safe codes) ((dfuClearStatus qdaConf).run qdaBuf) post now := by
  rw [dfuClearStatus, qdaDfuGetstate, ask_type]
  refine kept.command (by simp [qdaBufSize]) remains ?_ ends
  intro ok held
  cases ok
  · exact ⟨-1, rfl, by simp⟩
  · exact ⟨(held.u8 4).toNat, rfl, by simp⟩

end Commands

theorem getStatus {post : Option DfuStatus × QdaBuf → History Calls → Prop} (kept : Kept safe codes now)
    (remains : ∀ response, safe (Host.dialogue now ++ [⟨getstatusRequest, response⟩]))
    (ends : ∀ response held later, Kept safe codes later →
      Host.dialogue later = Host.dialogue now ++ [⟨getstatusRequest, response⟩] →
      post ((Exchange.mk getstatusRequest response).report, held) later) :
    wp (Kept safe codes) ((dfuGetStatus qdaConf).run qdaBuf) post now := by
  rw [dfuGetStatus, qdaDfuGetstatus, ask_type, StateT.run_bind, wp_seq]
  refine kept.ask (by simp [getstatusRequest, qdaBufSize]) remains fun response ok held later safe_ same answers whole => ?_
  have done := ends response held later safe_ same
  cases ok with
  | true =>
    obtain ⟨after, rfl, typed⟩ := answers.mp rfl
    obtain rfl := whole after rfl
    have report : (Exchange.mk getstatusRequest (some held)).report =
        some { bState := held.u8 9, bStatus := held.u8 8, bwPollTimeout := held.u32 4 } := if_pos typed
    rw [report] at done
    exact (wp_pure _).mpr ⟨safe_, done⟩
  | false =>
    have report : (Exchange.mk getstatusRequest response).report = none := by
      cases response with
      | none => rfl
      | some after => exact if_neg fun typed => absurd (answers.mpr ⟨after, rfl, typed⟩) (by simp)
    rw [report] at done
    exact (wp_pure _).mpr ⟨safe_, done⟩

theorem download {len transaction : UInt16} {data : Pointer} {post : Int × QdaBuf → History Calls → Prop}
    (kept : Kept safe codes now)
    (remains : ∀ bytes response, len.toNat ≤ qdaBufSize - 8 → data.load len.toNat = some bytes →
      safe (Host.dialogue now ++ [⟨dnloadRequest len transaction bytes, response⟩]))
    (refused : qdaBufSize - 8 < len.toNat → ∀ held, post (-1, held) now)
    (ends : ∀ bytes response rc held later, len.toNat ≤ qdaBufSize - 8 → data.load len.toNat = some bytes →
      Kept safe codes later → Host.dialogue later = Host.dialogue now ++ [⟨dnloadRequest len transaction bytes, response⟩] →
      (0 ≤ rc ↔ (Exchange.mk (dnloadRequest len transaction bytes) response).acknowledged) → post (rc, held) later) :
    wp (Kept safe codes) ((dfuDownload qdaConf len transaction data).run qdaBuf) post now := by
  rw [dfuDownload, qdaDfuDownload_eq]
  split
  next long => exact (wp_pure _).mpr ⟨kept, refused (by omega) _⟩
  next room =>
    cases loaded : data.load len.toNat with
    | none => exact kept.fault
    | some bytes =>
      have count := Pointer.load_length loaded
      have short : len.toNat ≤ qdaBufSize - 8 := by omega
      have fits : (dnloadRequest len transaction bytes).length ≤ qdaBufSize := by
        simp only [dnloadRequest, packet_length, blockPayload_length, qdaBufSize] at short ⊢
        omega
      refine kept.command fits (fun response => remains bytes response short loaded) ?_
        (fun response rc held later => ends bytes response rc held later short loaded)
      intro ok held
      cases ok
      · exact ⟨-1, rfl, by simp⟩
      · exact ⟨0, rfl, by simp⟩

end Kept

/-- An UPLOAD response that passes the checks and claims more data than the buffer has room for. -/
def Overlong (len : UInt16) (response : QdaBuf) : Prop :=
  response.type = qdaPktDfuUploadResp ∧ (response.u16 4).toNat ≤ len.toNat ∧ qdaBufSize < 6 + (response.u16 4).toNat

theorem wp_upload {always : History Calls → Prop} {now : History Calls} {len transaction : UInt16} {data : List UInt8}
    {qdaBuf : QdaBuf} {post : (Int × List UInt8) × QdaBuf → History Calls → Prop} (room : len.toNat ≤ data.length)
    (safe : always now) (asked : ∀ rc, always (sent now (uploadRequest len transaction) rc))
    (told : ∀ rc received after,
      always (answered now (uploadRequest len transaction) rc (qdaBuf.store 0 (uploadRequest len transaction)) received after))
    (lost : ∀ rc received after, Overlong len after → always (answered now (uploadRequest len transaction) rc
      (qdaBuf.store 0 (uploadRequest len transaction)) received after ++ [⟨.fault, ()⟩]))
    (fails : ∀ held later, post ((-1, data), held) later)
    (delivers : ∀ (count : Nat) copied held later, count ≤ len.toNat → copied.length = data.length →
      copied.drop len.toNat = data.drop len.toNat → post ((count, copied), held) later) :
    wp always ((qdaDfuUpload qdaConf len transaction data).run qdaBuf) post now := by
  rw [qdaDfuUpload, ask_block, StateT.run_bind, wp_seq]
  refine (wp_ask _ _ _ (by simp [qdaBufSize]) _).mpr ⟨safe, fun rc => ⟨asked rc, fun _ => ?_, fun _ received after => ?_⟩⟩
  · exact (wp_pure _).mpr ⟨asked rc, fails _ _⟩
  refine ⟨told rc received after, ?_⟩
  by_cases typed : after.type = qdaPktDfuUploadResp
  · rw [decide_eq_true typed, if_pos rfl, StateT.run_bind, StateT.run_get, pure_bind]
    by_cases long : (after.u16 4).toNat > len.toNat
    · simp only [if_pos long]
      exact (wp_pure _).mpr ⟨told rc received after, fails _ _⟩
    · simp only [if_neg long]
      cases loaded : (after.pointer 6).load (after.u16 4).toNat with
      | none =>
        refine (wp_fault _ _).mpr ⟨told rc received after, lost rc received after ⟨typed, Nat.not_lt.mp long, ?_⟩⟩
        by_contra inside
        have size := after.size
        rw [QdaBuf.pointer, Pointer.load_inside _ _ _ (by omega)] at loaded
        cases loaded
      | some bytes =>
        have count := Pointer.load_length loaded
        obtain ⟨copied, done⟩ := memcpy_fits data 0 bytes (by omega)
        have same : copied = bytes ++ data.drop bytes.length := by
          rw [memcpy, if_pos (by omega), Int.toNat_zero, patch_zero _ _ (by omega)] at done
          exact (Option.some.inj done).symm
        simp only [done]
        refine (wp_pure _).mpr ⟨told rc received after, delivers _ _ _ _ (Nat.not_lt.mp long) ?_ ?_⟩
        · rw [same, List.length_append, List.length_drop]
          omega
        · rw [same, List.drop_append, List.drop_drop, List.drop_of_length_le (by omega), List.nil_append]
          congr 1
          omega
  · rw [decide_eq_false typed, if_neg (by simp)]
    exact (wp_pure _).mpr ⟨told rc received after, fails _ _⟩

end DfuUtilQda.Host

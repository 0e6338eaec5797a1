import DfuUtilQda.Interaction.Performs
import DfuUtilQda.Proofs.Upload
import DfuUtilQda.Qda.Checked

/-! The checks that the accesses to `qda_buf` stay inside it never fail, with one
exception: the length in an UPLOAD response is compared with nothing but the request. -/

namespace DfuUtilQda.Host
open Interaction Machine Qda Dfu

section Checks

variable {m : Type → Type 1} [Monad m] [Faults m] (conf : QdaConf m)

theorem within_inside {offset count : Nat} (inside : offset + count ≤ qdaBufSize) :
    (Checked.within offset count : Qda.Code m Unit) = pure () := if_pos inside

/-- The header of a packet and its fixed fields are among the first twelve bytes. -/
theorem within_header {offset count : Nat} (low : offset + count ≤ 12) : (Checked.within offset count : Qda.Code m Unit) = pure () :=
  within_inside (Nat.le_trans low (by decide))

variable [LawfulMonad m]

theorem exchange_checked {length : Nat} (inside : length ≤ qdaBufSize) (expected : UInt32) :
    Checked.exchange conf length expected = exchange conf length expected := by
  have front : 0 + length ≤ qdaBufSize := by omega
  simp (disch := decide) only [Checked.exchange, exchange, within_inside front, within_header, pure_bind]

theorem exchange_header {length : Nat} (low : length ≤ 12) (expected : UInt32) :
    Checked.exchange conf length expected = exchange conf length expected :=
  exchange_checked conf (Nat.le_trans low (by decide)) expected

theorem reset_checked : Checked.qdaReset conf = qdaReset conf := by
  simp (disch := decide) only [Checked.qdaReset, qdaReset, within_header, pure_bind]

theorem simple_checked (type : UInt32) : Checked.simpleRequest conf type = simpleRequest conf type := by
  simp (disch := decide) only [Checked.simpleRequest, simpleRequest, within_header, exchange_header, pure_bind]

theorem devDesc_checked (dif : QdaIf) : Checked.qdaGetDevDesc conf dif = qdaGetDevDesc conf dif := by
  simp (disch := decide) only [Checked.qdaGetDevDesc, qdaGetDevDesc, within_header, exchange_header, pure_bind]

theorem dfuDesc_checked (dif : QdaIf) : Checked.qdaGetDfuDesc conf dif = qdaGetDfuDesc conf dif := by
  simp (disch := decide) only [Checked.qdaGetDfuDesc, qdaGetDfuDesc, within_header, exchange_header, pure_bind]

theorem setAlt_checked (alt : UInt8) : Checked.qdaSetAltSetting conf alt = qdaSetAltSetting conf alt := by
  simp (disch := decide) only [Checked.qdaSetAltSetting, qdaSetAltSetting, within_header, exchange_header, pure_bind]

theorem getstatus_checked : Checked.qdaDfuGetstatus conf = qdaDfuGetstatus conf := by
  simp (disch := decide) only [Checked.qdaDfuGetstatus, qdaDfuGetstatus, within_header, exchange_header, pure_bind]

theorem getstate_checked : Checked.qdaDfuGetstate conf = qdaDfuGetstate conf := by
  simp (disch := decide) only [Checked.qdaDfuGetstate, qdaDfuGetstate, within_header, exchange_header, pure_bind]

/-- The length in the packet is the one that has been compared with the size of the buffer. -/
theorem download_checked (len transaction : UInt16) (data : Pointer) :
    Checked.qdaDfuDownload conf len transaction data = qdaDfuDownload conf len transaction data := by
  simp (disch := decide) only [Checked.qdaDfuDownload, qdaDfuDownload, within_header, pure_bind]
  split
  next => rfl
  next room =>
    cases loaded : data.load len.toNat with
    | none => rfl
    | some bytes =>
      have count := Pointer.load_length loaded
      have size : qdaBufSize = 8192 := rfl
      have inside : 8 + len.toNat ≤ qdaBufSize := by omega
      have stored (qdaBuf : QdaBuf) :
          (qdaBuf.store 0 (packet qdaPktDfuDnloadReq (blockPayload len transaction bytes))).u16 4 = len :=
        block_len _ _ _ _ _ (by simp only [blockPayload_length]; omega)
      have whole : 4 + 4 + len.toNat ≤ qdaBufSize := by omega
      funext qdaBuf
      simp only [within_inside inside, pure_bind, store_block]
      change StateT.run _ qdaBuf = StateT.run _ qdaBuf
      simp only [StateT.run_bind, StateT.run_modify, StateT.run_get, pure_bind, store_data, stored, exchange_checked conf whole]

end Checks

/-- The copy out of the buffer is the one access that can fail its check. -/
theorem upload_checked (conf : QdaConf (Program Calls)) (len transaction : UInt16) (data : List UInt8) :
    Checked.qdaDfuUpload conf len transaction data = qdaDfuUpload conf len transaction data := by
  simp (disch := decide) only [Checked.qdaDfuUpload, qdaDfuUpload, within_header, exchange_header, pure_bind]
  congr 1
  funext _
  congr 1
  funext ok
  by_cases typed : ok = true
  · simp only [if_pos typed]
    congr 1
    funext qdaBuf
    by_cases long : (qdaBuf.u16 4).toNat > len.toNat
    · simp only [if_pos long]
    · simp only [if_neg long]
      have size := qdaBuf.size
      by_cases inside : 6 + (qdaBuf.u16 4).toNat ≤ qdaBufSize
      · rewrite [within_inside inside, pure_bind, QdaBuf.pointer, Pointer.load_inside _ _ _ (by omega)]
        rfl
      · have outside : (qdaBuf.pointer 6).load (qdaBuf.u16 4).toNat = none := by
          have some : (qdaBuf.u16 4).toNat ≠ 0 := by simp only [qdaBufSize] at inside; omega
          rw [Pointer.load, if_neg some, if_neg]
          simp only [QdaBuf.pointer]
          omega
        rw [outside, Checked.within, if_neg inside]
        rfl
  · simp only [if_neg typed]

/-- A call of one of the QDA operations. -/
inductive Request where
  | reset
  | devDesc (dif : QdaIf)
  | dfuDesc (dif : QdaIf)
  | setAlt (alt : UInt8)
  | detach
  | download (len transaction : UInt16) (data : Pointer)
  | upload (len transaction : UInt16) (data : List UInt8)
  | getstatus
  | clrstatus
  | getstate
  | abort

/-- The call with every access to `qda_buf` checked; what it returns does not matter here. -/
def Request.call : Request → Code Unit
  | reset => do let _ ← Checked.qdaReset qdaConf
  | devDesc dif => do let _ ← Checked.qdaGetDevDesc qdaConf dif
  | dfuDesc dif => do let _ ← Checked.qdaGetDfuDesc qdaConf dif
  | setAlt alt => do let _ ← Checked.qdaSetAltSetting qdaConf alt
  | detach => do let _ ← qdaDfuDetach qdaConf
  | download len transaction data => do let _ ← Checked.qdaDfuDownload qdaConf len transaction data
  | upload len transaction data => do let _ ← Checked.qdaDfuUpload qdaConf len transaction data
  | getstatus => do let _ ← Checked.qdaDfuGetstatus qdaConf
  | clrstatus => do let _ ← Checked.qdaDfuClrstatus qdaConf
  | getstate => do let _ ← Checked.qdaDfuGetstate qdaConf
  | abort => do let _ ← Checked.qdaDfuAbort qdaConf

/-- What a caller promises: there are `len` bytes to send, or there is room for `len` bytes. -/
def Request.Contract : Request → Prop
  | download len _ data => data.load len.toNat ≠ none
  | upload len _ data => len.toNat ≤ data.length
  | _ => True

/-- Nothing but `response` is received. -/
def Delivers (response : QdaBuf) (now : History Calls) : Prop :=
  ∀ asked answer, (⟨.receive asked, answer⟩ : Event Calls) ∈ now → answer.2 = response

def Unharmed (now : History Calls) : Prop := (⟨.fault, ()⟩ : Event Calls) ∉ now

/-- A call, answered by `response`, stays inside `qda_buf` and the `len` bytes of its caller's buffer,
and a DOWNLOAD that does not fit is refused before anything is copied or sent. -/
structure StaysInside (request : Request) (qdaBuf response : QdaBuf) : Prop where
  accesses : ∀ now rest, Runs (request.call.run qdaBuf) now rest → Delivers response now → Unharmed now
  caller : ∀ len transaction data, request = .upload len transaction data → ∀ now ret after held,
    Runs ((Checked.qdaDfuUpload qdaConf len transaction data).run qdaBuf) now (.ret ((ret, after), held)) →
      after.length = data.length ∧ after.drop len.toNat = data.drop len.toNat
  refusal : ∀ len transaction data, request = .download len transaction data → qdaBufSize - 8 < len.toNat →
    ∀ now rest, Runs (request.call.run qdaBuf) now rest → now = []

/-- An operation that is not an access gone astray. -/
def Harmless (op : Op) : Prop := op ≠ .fault

theorem unharmed_of_performs {α : Type} {program rest : Program Calls α} {now : History Calls} (performs : program.Performs Harmless)
    (run : Runs program now rest) : Unharmed now :=
  fun member => (run.performs performs).2 _ member rfl

theorem ask_harmless {request : List UInt8} {expected : UInt32} (fits : request.length ≤ qdaBufSize) :
    Static.Performs Harmless (ask qdaConf request expected) := by
  intro qdaBuf
  rw [ask_tree _ _ _ fits]
  refine ⟨by simp [Harmless], fun rc => ?_⟩
  dsimp only
  by_cases refused : rc < 0
  · rw [if_pos refused]
    trivial
  · rw [if_neg refused]
    exact ⟨by simp [Harmless], fun _ => trivial⟩

theorem simple_harmless (type : UInt32) : Static.Performs Harmless (simpleRequest qdaConf type) := by
  rw [simpleRequest, ask_type]
  refine .bind (ask_harmless (by simp [qdaBufSize])) fun ok => ?_
  split <;> exact .pure _

theorem query_harmless {request : List UInt8} {expected : UInt32} {α : Type} {read : QdaBuf → α} {failed : α}
    (fits : request.length ≤ qdaBufSize) :
    Static.Performs Harmless (ask qdaConf request expected >>= fun ok =>
      if ok then (do let qdaBuf ← get; return read qdaBuf) else (return failed) : Code α) := by
  refine .bind (ask_harmless fits) fun ok => ?_
  cases ok with
  | true => exact .bind .get fun _ => .pure _
  | false => exact .pure _

theorem reset_harmless : Static.Performs Harmless (qdaReset qdaConf) := by
  refine .bind (.modify _) fun _ => .bind .get fun _ => .bind (.lift ⟨by simp [Harmless], fun _ => trivial⟩) fun rc => ?_
  by_cases refused : rc < 0
  · rw [if_pos refused]
    exact .pure _
  · rw [if_neg refused]
    refine .bind (.lift ⟨by simp [Harmless], fun _ => trivial⟩) fun answer => .bind (.set _) fun _ => ?_
    split
    · exact .pure _
    · split <;> exact .pure _

theorem detach_harmless : Static.Performs Harmless (qdaDfuDetach qdaConf) := by
  refine .bind (.lift ⟨by simp [Harmless], fun _ => trivial⟩) fun rc => ?_
  split <;> exact .pure _

theorem download_harmless {len transaction : UInt16} {data : Pointer} (readable : data.load len.toNat ≠ none) :
    Static.Performs Harmless (qdaDfuDownload qdaConf len transaction data) := by
  rw [qdaDfuDownload_eq]
  by_cases long : len.toNat > qdaBufSize - 4 - 4
  · rw [if_pos long]
    exact .bind (.modify _) fun _ => .pure _
  · rw [if_neg long]
    cases loaded : data.load len.toNat with
    | none => exact absurd loaded readable
    | some bytes =>
      have count := Pointer.load_length loaded
      refine .bind (ask_harmless ?_) fun ok => ?_
      · have size : qdaBufSize = 8192 := rfl
        simp only [packet_length, blockPayload_length]
        omega
      · split <;> exact .pure _

/-- Every call but UPLOAD leaves the memory around the buffer alone, whatever it is answered. -/
theorem call_harmless (request : Request) (contract : request.Contract)
    (other : ∀ len transaction data, request ≠ .upload len transaction data) : Static.Performs Harmless request.call := by
  have done {α : Type} {code : Code α} (harmless : Static.Performs Harmless code) :
      Static.Performs Harmless (do let _ ← code : Code Unit) := .bind harmless fun _ => .pure _
  cases request with
  | reset => exact done (reset_checked qdaConf ▸ reset_harmless)
  | devDesc dif =>
    refine done ?_
    rw [devDesc_checked, qdaGetDevDesc, ask_type]
    exact query_harmless (by simp [qdaBufSize])
  | dfuDesc dif =>
    refine done ?_
    rw [dfuDesc_checked, qdaGetDfuDesc, ask_type]
    exact query_harmless (by simp [qdaBufSize])
  | setAlt alt =>
    refine done ?_
    rw [setAlt_checked, qdaSetAltSetting, ask_alt]
    refine .bind (ask_harmless (by simp [qdaBufSize])) fun ok => ?_
    split <;> exact .pure _
  | detach => exact done detach_harmless
  | download len transaction data => exact done (download_checked qdaConf len transaction data ▸ download_harmless contract)
  | upload len transaction data => exact absurd rfl (other len transaction data)
  | getstatus =>
    refine done ?_
    rw [getstatus_checked, qdaDfuGetstatus, ask_type]
    exact query_harmless (by simp [qdaBufSize])
  | clrstatus =>
    refine done ?_
    rw [Checked.qdaDfuClrstatus, simple_checked]
    exact simple_harmless _
  | getstate =>
    refine done ?_
    rw [getstate_checked, qdaDfuGetstate, ask_type]
    exact query_harmless (by simp [qdaBufSize])
  | abort =>
    refine done ?_
    rw [Checked.qdaDfuAbort, simple_checked]
    exact simple_harmless _

/-- What a history shows as long as no overlong response is delivered. -/
def SafeUnlessOverlong (len : UInt16) (now : History Calls) : Prop :=
  ∀ response, Delivers response now → ¬Overlong len response → Unharmed now

theorem upload_spec (len transaction : UInt16) (data : List UInt8) (room : len.toNat ≤ data.length) (qdaBuf : QdaBuf) :
    wp (SafeUnlessOverlong len) ((qdaDfuUpload qdaConf len transaction data).run qdaBuf) (fun result _ =>
      result.1.2.length = data.length ∧ result.1.2.drop len.toNat = data.drop len.toNat) [] := by
  refine wp_upload room ?_ ?_ ?_ ?_ ?_ ?_
  · exact fun _ _ _ => by simp [Unharmed]
  · exact fun _ _ _ _ => by simp [Unharmed, sent]
  · exact fun _ _ _ _ _ _ => by simp [Unharmed, sent, answered]
  · intro rc received after overlong response delivers fine
    have same : after = response := delivers (qdaBuf.store 0 (uploadRequest len transaction)) (received, after) (by simp [answered])
    exact absurd (same ▸ overlong) fine
  · exact fun _ _ => ⟨rfl, rfl⟩
  · exact fun count copied _ _ _ length rest => ⟨length, rest⟩

theorem upload_overruns {len : UInt16} {response : QdaBuf} (overlong : Overlong len response) (transaction : UInt16)
    (data : List UInt8) (qdaBuf : QdaBuf) :
    ∃ now, Runs ((Request.upload len transaction data).call.run qdaBuf) now .halt ∧ Delivers response now ∧ ¬Unharmed now := by
  obtain ⟨typed, short, outside⟩ := overlong
  have lost : (response.pointer 6).load (response.u16 4).toNat = none := by
    have size := response.size
    have bytes : qdaBufSize = 8192 := rfl
    rw [Pointer.load, if_neg (by omega), if_neg]
    simp only [QdaBuf.pointer]
    omega
  have asked := ask_run qdaBuf (packet qdaPktDfuUploadReq (blockPayload len transaction [])) qdaPktDfuUploadResp
    (by simp [qdaBufSize]) response
  rw [typed, decide_eq_true rfl] at asked
  refine ⟨conversation qdaBuf (packet qdaPktDfuUploadReq (blockPayload len transaction [])) response ++ [⟨.fault, ()⟩], ?_, ?_,
    by simp [Unharmed]⟩
  · rw [Request.call, upload_checked, qdaDfuUpload, ask_block, bind_assoc]
    refine asked.andThen ?_
    rw [if_pos rfl, bind_assoc, StateT.run_bind, StateT.run_get, pure_bind]
    simp only [if_neg (Nat.not_lt.mpr short), lost]
    exact .call (.here _)
  · intro asked answer member
    simp only [conversation, List.cons_append, List.nil_append, List.mem_cons, Event.mk.injEq, reduceCtorEq, false_and,
      false_or, Op.receive.injEq, List.not_mem_nil, or_false] at member
    obtain ⟨rfl, same⟩ := member
    rw [eq_of_heq same]

/-- The operations stay inside their buffers exactly when an UPLOAD is not answered with more data
than follows the header in `qda_buf`. -/
theorem stays_inside_iff (request : Request) (contract : request.Contract) (qdaBuf response : QdaBuf) :
    StaysInside request qdaBuf response ↔
      ∀ len transaction data, request = .upload len transaction data → ¬Overlong len response := by
  constructor
  · intro inside len transaction data same overlong
    subst same
    obtain ⟨now, run, delivers, harmed⟩ := upload_overruns overlong transaction data qdaBuf
    exact harmed (inside.accesses now _ run delivers)
  · intro fine
    refine ⟨?_, ?_, ?_⟩
    · intro now rest run delivers
      by_cases upload : ∃ len transaction data, request = .upload len transaction data
      · obtain ⟨len, transaction, data, rfl⟩ := upload
        have spec := upload_spec len transaction data contract qdaBuf
        rw [← upload_checked] at spec
        have whole : wp (SafeUnlessOverlong len) ((Request.upload len transaction data).call.run qdaBuf) (fun _ _ => True) [] := by
          rw [Request.call, StateT.run_bind, wp_seq]
          refine spec.imp fun result now safe _ => ?_
          exact (wp_pure _).mpr ⟨safe, trivial⟩
        exact whole.safe run response delivers (fine len transaction data rfl)
      · have other (len transaction : UInt16) (data : List UInt8) : request ≠ .upload len transaction data :=
          fun same => upload ⟨len, transaction, data, same⟩
        exact unharmed_of_performs (call_harmless request contract other qdaBuf) run
    · intro len transaction data same now ret after held run
      subst same
      rw [upload_checked] at run
      exact (upload_spec len transaction data contract qdaBuf).returns run
    · intro len transaction data same long now rest run
      subst same
      have large : len.toNat > qdaBufSize - 4 - 4 := by
        have size : qdaBufSize = 8192 := rfl
        omega
      rw [Request.call, download_checked, qdaDfuDownload_eq, if_pos large] at run
      cases run
      rfl

/-- A response with two bytes of data. -/
def twoBytes : QdaBuf := response qdaPktDfuUploadResp [0x02, 0x00, 0xAB, 0xCD]

theorem twoBytes_len : (twoBytes.u16 4).toNat = 2 := by
  have short : [0x02, 0x00, 0xAB, (0xCD : UInt8)].length ≤ 8188 := by decide
  simp only [QdaBuf.u16, leAt, twoBytes, response_bytes short]
  rfl

theorem twoBytes_block : uploadedBlock 2 twoBytes = some [0xAB, 0xCD] := by
  have short : [0x02, 0x00, 0xAB, (0xCD : UInt8)].length ≤ 8188 := by decide
  have typed : twoBytes.type = qdaPktDfuUploadResp := response_type short
  rw [uploadedBlock, if_pos ⟨typed, Nat.le_of_eq twoBytes_len⟩, twoBytes_len, twoBytes, response_bytes short]
  rfl

theorem small_upload_stays_inside : StaysInside (.upload 2 0 [0, 0]) QdaBuf.blank twoBytes ∧ ∃ now held,
    Runs ((Checked.qdaDfuUpload qdaConf 2 0 [0, 0]).run QdaBuf.blank) now (.ret ((2, [0xAB, 0xCD]), held)) := by
  have room : (2 : UInt16).toNat ≤ [0, (0 : UInt8)].length := by decide
  constructor
  · refine (stays_inside_iff (.upload 2 0 [0, 0]) room _ _).mpr ?_
    intro len transaction data same overlong
    obtain ⟨_, _, outside⟩ := overlong
    rw [twoBytes_len] at outside
    exact absurd outside (by decide)
  · have inside : 6 + (twoBytes.u16 4).toNat ≤ qdaBufSize := by
      rw [twoBytes_len]
      decide
    rw [upload_checked]
    exact ⟨_, twoBytes, (runs_upload room).mpr ⟨_, @Uploaded.delivered _ _ _ QdaBuf.blank 0 10 _ _ (by decide) twoBytes_block inside, rfl⟩⟩

/-- The response announces a whole buffer of data, as it was asked to. -/
theorem long_upload_overruns : ∃ answer now, answer = response qdaPktDfuUploadResp [0x00, 0x20] ∧
    Runs ((Request.upload 8192 0 (List.replicate 8192 0)).call.run QdaBuf.blank) now .halt ∧ Delivers answer now ∧
      (⟨.fault, ()⟩ : Event Calls) ∈ now := by
  have short : [0x00, (0x20 : UInt8)].length ≤ 8188 := by decide
  have announced : (response qdaPktDfuUploadResp [0x00, 0x20]).u16 4 = 8192 := by
    simp only [QdaBuf.u16, leAt, response_bytes short]
    rfl
  have overlong : Overlong 8192 (response qdaPktDfuUploadResp [0x00, 0x20]) := by
    refine ⟨response_type short, ?_, ?_⟩
    · rw [announced]
    · rw [announced]
      decide
  obtain ⟨now, run, delivers, harmed⟩ := upload_overruns overlong 0 (List.replicate 8192 0) QdaBuf.blank
  exact ⟨_, now, rfl, run, delivers, not_not.mp harmed⟩

end DfuUtilQda.Host

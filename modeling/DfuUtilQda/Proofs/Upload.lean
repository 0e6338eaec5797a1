import DfuUtilQda.Proofs.DeviceRuns
import DfuUtilQda.Proofs.FileCalls
import Mathlib.Data.List.Induction

/-! The upload loop over an arbitrary upload routine: what it writes is what the routine
delivered, in order, up to the first call that fails or comes back with less than a block. -/

namespace DfuUtilQda.Dfu
open Interaction Machine Qda Host

/-- An operation that neither writes to a file nor ends the program. -/
def Quiet (op : Op) : Prop := (∀ file data, op ≠ .write file data) ∧ ∀ code, op ≠ .exit code

def AllQuiet (now : History Calls) : Prop := ∀ event ∈ now, Quiet event.op

/-- What is relied on: the routine fails with -1 or delivers at most as much as it was asked
for, into a buffer that has the room, and leaves files alone. -/
def Contract (upload : Uploader) (xferSize : Int) : Prop :=
  ∀ block buf held, (buf.length : Int) = xferSize →
    wp AllQuiet ((upload (UInt16.ofInt xferSize) block buf).run held) (fun result _ =>
      (result.1.1 = -1 ∨ 0 ≤ result.1.1 ∧ result.1.1 ≤ xferSize) ∧ (result.1.2.length : Int) = xferSize) []

/-- A call of the routine: what happened in it, and the block it delivered unless it failed. -/
structure Call where
  history : History Calls
  block : Option (List UInt8)

def Call.rc (call : Call) : Int :=
  match call.block with
  | none => -1
  | some block => block.length

def Call.received (call : Call) : List UInt8 := call.block.getD []

/-- The call, and the block written to the file. -/
def Call.events (fd : Int) (call : Call) : History Calls :=
  match call.block with
  | none => call.history
  | some block => call.history ++ [⟨.write fd block, (block.length : Int)⟩]

@[simp] theorem Call.rc_delivered (history : History Calls) (block : List UInt8) :
    (Call.mk history (some block)).rc = block.length := rfl

@[simp] theorem Call.received_delivered (history : History Calls) (block : List UInt8) :
    (Call.mk history (some block)).received = block := rfl

def received (calls : List Call) : List UInt8 := calls.flatMap Call.received

/-- Calls made one after the other, all for `xferSize` bytes and with consecutive block numbers. -/
inductive Chain (upload : Uploader) (xferSize : Int) : Nat → List UInt8 → QdaBuf → List Call → List UInt8 → QdaBuf → Prop where
  | nil {k : Nat} {buf : List UInt8} {held : QdaBuf} : Chain upload xferSize k buf held [] buf held
  | cons {k : Nat} {buf after last : List UInt8} {held kept final : QdaBuf} {call : Call} {calls : List Call}
      (run : Runs ((upload (UInt16.ofInt xferSize) (UInt16.ofNat k) buf).run held) call.history (.ret ((call.rc, after), kept)))
      (delivered : ∀ block, call.block = some block → after.take block.length = block)
      (rest : Chain upload xferSize (k + 1) after kept calls last final) :
      Chain upload xferSize k buf held (call :: calls) last final

/-- A call that delivered as much as it was asked for. -/
def Full (xferSize : Int) (call : Call) : Prop := (call.received.length : Int) = xferSize

/-- The last call failed or came back with less than a block, and the total fits an `int`. -/
def Stops (xferSize : Int) (calls : List Call) (ret : Int) : Prop :=
  ∃ full last, calls = full ++ [last] ∧ (∀ call ∈ full, Full xferSize call) ∧ (received calls).length < 2 ^ 31 ∧
    (last.block = none ∧ ret = -1 ∨ ∃ block, last.block = some block ∧ (block.length : Int) < xferSize ∧ ret = 0)

/-- With the last block the total has reached 2^31. -/
def Overflows (xferSize : Int) (calls : List Call) : Prop :=
  ∃ full last, calls = full ++ [last] ∧ (∀ call ∈ full, Full xferSize call) ∧ (received full).length < 2 ^ 31 ∧
    (last.received.length : Int) ≤ xferSize ∧ 2 ^ 31 ≤ (received calls).length

/-- The buffer's allocation, and then the calls. -/
def uploading (fd : Int) {size : Nat} (memory : Block size) (calls : List Call) : History Calls :=
  ⟨.malloc size, some memory⟩ :: calls.flatMap (Call.events fd)

/-- All writes were complete, and memory was available. -/
structure Succeeds (now : History Calls) : Prop where
  writes : ∀ file data written, (⟨.write file data, written⟩ : Event Calls) ∈ now → written = (data.length : Int)
  memory : ∀ size, (⟨.malloc size, none⟩ : Event Calls) ∉ now

theorem received_append (calls : List Call) (call : Call) : received (calls ++ [call]) = received calls ++ call.received := by
  simp [received]

theorem Chain.snoc {upload : Uploader} {xferSize : Int} {k : Nat} {buf after next : List UInt8} {held kept final : QdaBuf}
    {calls : List Call} (chain : Chain upload xferSize k buf held calls after kept) {call : Call}
    (run : Runs ((upload (UInt16.ofInt xferSize) (UInt16.ofNat (k + calls.length)) after).run kept) call.history
      (.ret ((call.rc, next), final)))
    (delivered : ∀ block, call.block = some block → next.take block.length = block) :
    Chain upload xferSize k buf held (calls ++ [call]) next final := by
  induction chain with
  | nil => exact .cons run delivered .nil
  | @cons k buf after last held kept final' first calls earlier sound _ ih =>
    refine .cons earlier sound (ih ?_)
    have place : k + 1 + calls.length = k + (first :: calls).length := by rw [List.length_cons]; omega
    rw [place]
    exact run

section Loop

variable (upload : Uploader) (xferSize fd : Int) (qdaBuf : QdaBuf)

/-- The program exits because of the total, if it does not because of a write or of memory. -/
def ExitsOnOverflow (now : History Calls) : Prop :=
  Succeeds now → ∀ code, (⟨.exit code, ()⟩ : Event Calls) ∈ now →
    code = exSoftware ∧ ∃ (memory : Block (toSize xferSize)) (calls : List Call) (after : List UInt8) (held : QdaBuf),
      Chain upload xferSize 0 memory.val qdaBuf calls after held ∧ Overflows xferSize calls ∧
      now = uploading fd memory calls ++ [⟨.exit exSoftware, ()⟩]

/-- The loop's head, after calls that all delivered a whole block. -/
structure AtRound (memory : Block (toSize xferSize)) (calls : List Call) (s : Upload) (held : QdaBuf) (now : History Calls) :
    Prop where
  chain : Chain upload xferSize 0 memory.val qdaBuf calls s.buf held
  full : ∀ call ∈ calls, Full xferSize call
  history : now = uploading fd memory calls
  total : s.totalBytes = (received calls).length
  short : (received calls).length < 2 ^ 31
  transaction : s.transaction = UInt16.ofNat calls.length
  room : (s.buf.length : Int) = xferSize
  going : ∀ code, (⟨.exit code, ()⟩ : Event Calls) ∉ now

variable {upload xferSize fd qdaBuf} {memory : Block (toSize xferSize)} {calls : List Call} {s : Upload} {held : QdaBuf}
  {now : History Calls}

theorem exitsOnOverflow_of_going {now : History Calls} (going : ∀ code, (⟨.exit code, ()⟩ : Event Calls) ∉ now) :
    ExitsOnOverflow upload xferSize fd qdaBuf now :=
  fun _ code member => absurd member (going code)

theorem going_append {later : History Calls} (going : ∀ code, (⟨.exit code, ()⟩ : Event Calls) ∉ now) (quiet : AllQuiet later)
    (code : Nat) : (⟨.exit code, ()⟩ : Event Calls) ∉ now ++ later := by
  intro member
  obtain early | late := List.mem_append.mp member
  · exact going code early
  · exact (quiet _ late).2 code rfl

theorem uploading_snoc (call : Call) : uploading fd memory (calls ++ [call]) = uploading fd memory calls ++ call.events fd := by
  simp [uploading]

theorem total_next {total rc : Int} (low : 0 ≤ total) (high : total < 2 ^ 31) (some : 0 ≤ rc) (few : rc ≤ 65535) :
    (toInt (total + rc) < 0 ↔ 2 ^ 31 ≤ total + rc) ∧ (total + rc < 2 ^ 31 → toInt (total + rc) = total + rc) := by
  unfold toInt
  constructor <;> omega

theorem uploadRound_spec (contract : Contract upload xferSize) (range : 1 ≤ xferSize ∧ xferSize ≤ 65535)
    (head : AtRound upload xferSize fd qdaBuf memory calls s held now) :
    wp (ExitsOnOverflow upload xferSize fd qdaBuf) ((uploadRoundWith upload xferSize fd s).run held) (fun outcome later =>
      match outcome.1 with
      | .inl next => ∃ call, AtRound upload xferSize fd qdaBuf memory (calls ++ [call]) next outcome.2 later
      | .inr (_, ret) => ∃ call after, Chain upload xferSize 0 memory.val qdaBuf (calls ++ [call]) after outcome.2 ∧
          Stops xferSize (calls ++ [call]) ret ∧ later = uploading fd memory (calls ++ [call])) now := by
  rw [uploadRoundWith, StateT.run_bind, wp_seq]
  intro later rest run
  have spec := contract s.transaction s.buf held head.room
  obtain ⟨quiet, done⟩ := spec later rest run
  rw [List.nil_append] at quiet
  have going := going_append head.going quiet
  refine ⟨exitsOnOverflow_of_going going, ?_⟩
  rintro ⟨⟨rc, after⟩, kept⟩ rfl
  obtain ⟨result, room⟩ := done _ rfl
  have place : s.transaction = UInt16.ofNat (0 + calls.length) := by rw [head.transaction, Nat.zero_add]
  rw [place] at run
  dsimp only at result room ⊢
  by_cases failed : rc < 0
  · obtain rfl : rc = -1 := by omega
    have chain := @Chain.snoc _ _ _ _ _ _ _ _ _ _ head.chain ⟨later, none⟩ run (by simp)
    rw [if_pos failed]
    refine (wp_pure _).mpr ⟨exitsOnOverflow_of_going going, ⟨later, none⟩, after, chain, ?_, ?_⟩
    · refine ⟨calls, ⟨later, none⟩, rfl, head.full, ?_, .inl ⟨rfl, rfl⟩⟩
      rw [received_append, Call.received, Option.getD_none, List.append_nil]
      exact head.short
    · rw [uploading_snoc, head.history]
      rfl
  · obtain ⟨size, rfl⟩ : ∃ size : Nat, rc = size := ⟨rc.toNat, by omega⟩
    have length : (after.take size).length = size := by rw [List.length_take]; omega
    let call : Call := ⟨later, some (after.take size)⟩
    have chain : Chain upload xferSize 0 memory.val qdaBuf (calls ++ [call]) after kept := by
      refine head.chain.snoc ?_ ?_
      · rw [Call.rc_delivered, length]
        exact run
      · intro block same
        cases same
        rw [length]
    have history : uploading fd memory (calls ++ [call]) =
        now ++ later ++ [⟨.write fd (after.take size), ((after.take size).length : Int)⟩] := by
      rw [uploading_snoc, head.history, List.append_assoc]
      rfl
    have sum : (received (calls ++ [call])).length = (received calls).length + size := by
      rw [received_append, List.length_append, Call.received_delivered, length]
    have short := head.short
    obtain ⟨negative, exact_⟩ := @total_next (received calls).length size (by omega) (by omega) (by omega) (by omega)
    have wrote (count : Int) (code : Nat) :
        (⟨.exit code, ()⟩ : Event Calls) ∉ now ++ later ++ [⟨.write fd (after.take size), count⟩] := by
      intro member
      obtain earlier | last := List.mem_append.mp member
      · exact going code earlier
      · cases List.mem_singleton.mp last
    rw [if_neg failed, Int.toNat_natCast, StateT.run_bind, wp_seq, head.total]
    refine wp_fileWrite (exitsOnOverflow_of_going going) (fun count => exitsOnOverflow_of_going (wrote count)) ?_ ?_
    · intro count different succeeds
      exact absurd (succeeds.writes fd _ count (by simp)) different
    dsimp only
    rw [← history]
    have goes (code : Nat) : (⟨.exit code, ()⟩ : Event Calls) ∉ uploading fd memory (calls ++ [call]) := history ▸ wrote _ code
    by_cases overflow : toInt ((received calls).length + size) < 0
    · rw [if_pos overflow]
      refine (wp_exit _ _ _).mpr ⟨exitsOnOverflow_of_going goes, fun _ code member => ?_⟩
      obtain earlier | last := List.mem_append.mp member
      · exact absurd earlier (goes code)
      · cases List.mem_singleton.mp last
        refine ⟨rfl, memory, calls ++ [call], after, kept, chain, ⟨calls, call, rfl, head.full, head.short, ?_, ?_⟩, rfl⟩
        · rw [Call.received_delivered, length]
          omega
        · have large := negative.mp overflow
          omega
    · have total := exact_ (by omega)
      rw [if_neg overflow]
      by_cases last : (size : Int) < xferSize
      · rw [if_pos last]
        refine (wp_pure _).mpr ⟨exitsOnOverflow_of_going goes, call, after, chain, ?_, rfl⟩
        refine ⟨calls, call, rfl, head.full, by omega, .inr ⟨after.take size, rfl, ?_, rfl⟩⟩
        rwa [length]
      · rw [if_neg last]
        refine (wp_pure _).mpr ⟨exitsOnOverflow_of_going goes, call, ?_⟩
        refine ⟨chain, ?_, rfl, ?_, by omega, ?_, room, goes⟩
        · intro found member
          obtain earlier | final := List.mem_append.mp member
          · exact head.full found earlier
          · rw [List.mem_singleton.mp final, Full, Call.received_delivered, length]
            omega
        · simp only [total, sum]
          omega
        · rw [head.transaction, List.length_append, List.length_singleton, UInt16.ofNat_add]
          rfl

/-- A run in which memory and writes do not fail returns after a last block or a failed call,
and exits when the total has become too large. -/
theorem dfuloadDoUpload_spec (contract : Contract upload xferSize) (range : 1 ≤ xferSize ∧ xferSize ≤ 65535) :
    wp (ExitsOnOverflow upload xferSize fd qdaBuf) ((dfuloadDoUploadWith upload xferSize 0 fd).run qdaBuf) (fun result now =>
      ∃ (memory : Block (toSize xferSize)) (calls : List Call) (after : List UInt8),
        Chain upload xferSize 0 memory.val qdaBuf calls after result.2 ∧ Stops xferSize calls result.1 ∧
        now = uploading fd memory calls) [] := by
  have size : (toSize xferSize : Int) = xferSize := toSize_of_range (by omega) (by omega)
  have nothing : ExitsOnOverflow upload xferSize fd qdaBuf [] := exitsOnOverflow_of_going (by simp)
  have allocated (answer : Option (Block (toSize xferSize))) (code : Nat) :
      (⟨.exit code, ()⟩ : Event Calls) ∉ [(⟨.malloc (toSize xferSize), answer⟩ : Event Calls)] := by simp
  rw [dfuloadDoUploadWith, StateT.run_bind, wp_seq, dfuMalloc, StateT.run_bind, wp_seq]
  refine (wp_perform_run _ _ _).mpr ⟨nothing, fun answer => ⟨exitsOnOverflow_of_going (allocated answer), ?_⟩⟩
  cases answer with
  | none =>
    refine (wp_exit _ _ _).mpr ⟨exitsOnOverflow_of_going (allocated none), fun succeeds => ?_⟩
    exact absurd (List.mem_cons_self) (succeeds.memory (toSize xferSize))
  | some memory =>
    refine (wp_pure _).mpr ⟨exitsOnOverflow_of_going (allocated (some memory)), ?_⟩
    rw [StateT.run_bind, wp_seq]
    have looped : wp (ExitsOnOverflow upload xferSize fd qdaBuf)
        ((Static.loop (uploadRoundWith upload xferSize fd) ⟨0, 0, memory.val⟩).run qdaBuf) (fun outcome now =>
          ∃ (calls : List Call) (after : List UInt8), Chain upload xferSize 0 memory.val qdaBuf calls after outcome.2 ∧
            Stops xferSize calls outcome.1.2 ∧ now = uploading fd memory calls) [⟨.malloc (toSize xferSize), some memory⟩] := by
      apply wp.static_loop fun s held now => ∃ calls, AtRound upload xferSize fd qdaBuf memory calls s held now
      · exact ⟨[], .nil, by simp, rfl, rfl, by simp [received], rfl, by rw [memory.2]; exact size, by simp⟩
      · intro s held now invariant
        obtain ⟨calls, head⟩ := invariant
        refine (uploadRound_spec contract range head).imp ?_
        rintro ⟨outcome, kept⟩ later _ result
        cases outcome with
        | inl next =>
          obtain ⟨call, further⟩ := result
          exact ⟨_, further⟩
        | inr value =>
          obtain ⟨call, after, ends⟩ := result
          exact ⟨_, after, ends⟩
    refine looped.imp ?_
    rintro ⟨⟨total, ret⟩, held⟩ now safe ⟨calls, after, ends⟩
    exact (wp_pure _).mpr ⟨safe, memory, calls, after, ends⟩

end Loop

section Runs

variable {upload : Uploader} {xferSize fd : Int} {k total : Nat} {buf after last : List UInt8} {held kept final : QdaBuf}

theorem round_run {history : History Calls} {block : List UInt8} {more : History Calls}
    {rest : Program Calls ((Upload ⊕ (Int × Int)) × QdaBuf)}
    (run : Runs ((upload (UInt16.ofInt xferSize) (UInt16.ofNat k) buf).run held) history (.ret ((block.length, after), kept)))
    (delivered : after.take block.length = block)
    (goes_on : Runs ((if toInt (total + block.length) < 0 then Host.exit exSoftware
      else if (block.length : Int) < xferSize then return .inr (toInt (total + block.length), 0)
      else return .inl ⟨toInt (total + block.length), UInt16.ofNat k + 1, after⟩ :
        Host.Code (Upload ⊕ (Int × Int))).run kept) more rest) :
    Runs ((uploadRoundWith upload xferSize fd ⟨total, UInt16.ofNat k, buf⟩).run held)
      ((Call.mk history (some block)).events fd ++ more) rest := by
  rw [uploadRoundWith, Call.events, List.append_assoc]
  refine run.andThen ?_
  dsimp only
  rw [if_neg (by omega), Int.toNat_natCast, delivered]
  exact (fileWrite_run 0 block).andThen goes_on

theorem full_delivers {call : Call} (range : 1 ≤ xferSize) (full : Full xferSize call) :
    ∃ history block, call = ⟨history, some block⟩ ∧ (block.length : Int) = xferSize := by
  obtain ⟨history, block⟩ := call
  cases block with
  | none =>
    simp only [Full, Call.received, Option.getD_none, List.length_nil] at full
    omega
  | some block => exact ⟨history, block, rfl, full⟩

theorem full_runs (range : 1 ≤ xferSize) {full tail : List Call}
    (chain : Chain upload xferSize k buf held (full ++ tail) last final) (all : ∀ call ∈ full, Full xferSize call)
    (short : total + (received full).length < 2 ^ 31) :
    ∃ middle kept, Chain upload xferSize (k + full.length) middle kept tail last final ∧
      ∀ later rest, Runs ((Static.loop (uploadRoundWith upload xferSize fd)
          ⟨(total + (received full).length : Nat), UInt16.ofNat (k + full.length), middle⟩).run kept) later rest →
        Runs ((Static.loop (uploadRoundWith upload xferSize fd) ⟨total, UInt16.ofNat k, buf⟩).run held)
          (full.flatMap (Call.events fd) ++ later) rest := by
  induction full generalizing k buf held total with
  | nil => exact ⟨buf, held, chain, fun later rest run => run⟩
  | cons call full ih =>
    obtain ⟨whole, others⟩ := List.forall_mem_cons.mp all
    obtain ⟨history, block, rfl, size⟩ := full_delivers range whole
    have sum : total + (received (⟨history, some block⟩ :: full)).length = total + block.length + (received full).length := by
      simp only [received, List.flatMap_cons, Call.received_delivered, List.length_append]
      omega
    rw [sum] at short ⊢
    cases chain with
    | @cons _ _ after _ _ kept _ _ _ run delivered rest =>
      obtain ⟨middle, held', chain', runs⟩ := @ih (k + 1) (total + block.length) after kept rest others short
      have place : k + 1 + full.length = k + (full.length + 1) := by omega
      rw [place] at chain' runs
      refine ⟨middle, held', chain', fun later rest more => ?_⟩
      have inside : toInt (total + block.length) = (total + block.length : Nat) := by
        rw [toInt_of_range (by omega) (by omega)]
        exact (Int.natCast_add _ _).symm
      have round : Runs ((uploadRoundWith upload xferSize fd ⟨total, UInt16.ofNat k, buf⟩).run held)
          ((Call.mk history (some block)).events fd) (.ret (.inl ⟨(total + block.length : Nat), UInt16.ofNat (k + 1), after⟩, kept)) := by
        rw [← List.append_nil ((Call.mk history (some block)).events fd)]
        refine round_run run (delivered block rfl) ?_
        rw [inside, if_neg (by omega), if_neg (by omega), UInt16.ofNat_add]
        exact .here _
      rw [List.flatMap_cons, List.append_assoc]
      exact round.again (runs later rest more)

theorem before_last (range : 1 ≤ xferSize) {memory : Block (toSize xferSize)} {full : List Call} {call : Call}
    (chain : Chain upload xferSize 0 memory.val held (full ++ [call]) last final) (all : ∀ call ∈ full, Full xferSize call)
    (short : (received full).length < 2 ^ 31) :
    ∃ middle kept, Runs ((upload (UInt16.ofInt xferSize) (UInt16.ofNat full.length) middle).run kept) call.history
        (.ret ((call.rc, last), final)) ∧
      (∀ block, call.block = some block → last.take block.length = block) ∧
      ∀ later rest, Runs ((Static.loop (uploadRoundWith upload xferSize fd)
          ⟨((received full).length : Nat), UInt16.ofNat full.length, middle⟩).run kept) later rest →
        Runs ((Static.loop (uploadRoundWith upload xferSize fd) ⟨0, 0, memory.val⟩).run held)
          (full.flatMap (Call.events fd) ++ later) rest := by
  obtain ⟨middle, kept, tail, runs⟩ := @full_runs upload xferSize fd 0 0 _ _ _ _ range _ _ chain all (by omega)
  simp only [Nat.zero_add] at tail runs
  cases tail with
  | cons run delivered rest =>
    cases rest
    exact ⟨middle, kept, run, delivered, runs⟩

theorem stops_run (range : 1 ≤ xferSize) {memory : Block (toSize xferSize)} {calls : List Call} {ret : Int}
    (chain : Chain upload xferSize 0 memory.val held calls last final) (stops : Stops xferSize calls ret) :
    Runs ((dfuloadDoUploadWith upload xferSize 0 fd).run held) (uploading fd memory calls) (.ret (ret, final)) := by
  obtain ⟨full, ⟨history, block⟩, rfl, all, short, result⟩ := stops
  rw [received_append, List.length_append] at short
  obtain ⟨middle, kept, run, delivered, runs⟩ := @before_last upload xferSize fd _ _ _ range memory full _ chain all (by omega)
  have looped : ∃ total, Runs ((Static.loop (uploadRoundWith upload xferSize fd) ⟨0, 0, memory.val⟩).run held)
      (full.flatMap (Call.events fd) ++ (Call.mk history block).events fd) (.ret ((total, ret), final)) := by
    obtain ⟨failed, rfl⟩ | ⟨data, same, less, rfl⟩ := result
    · obtain rfl : block = none := failed
      refine ⟨(received full).length, runs _ _ (.leave ?_)⟩
      rw [uploadRoundWith, Call.events, ← List.append_nil history]
      exact run.andThen (.here _)
    · obtain rfl : block = some data := same
      rw [Call.received_delivered] at short
      have inside : toInt ((received full).length + data.length) = ((received full).length : Int) + data.length :=
        toInt_of_range (by omega) (by omega)
      refine ⟨((received full).length : Int) + data.length, runs _ _ (.leave ?_)⟩
      rw [← List.append_nil (Call.events fd _)]
      refine round_run run (delivered data rfl) ?_
      rw [inside, if_neg (by omega), if_pos less]
      exact .here _
  obtain ⟨total, looped⟩ := looped
  have ends : Runs ((if (0 : Int) ≠ 0 ∧ total ≠ 0 then Host.exit exSoftware else return ret : Host.Code Int).run final) []
      (.ret (ret, final)) := .here _
  have history_ : uploading fd memory (full ++ [⟨history, block⟩]) = [⟨.malloc (toSize xferSize), some memory⟩] ++
      ((full.flatMap (Call.events fd) ++ (Call.mk history block).events fd) ++ []) := by
    simp [uploading]
  rw [history_, dfuloadDoUploadWith]
  exact (malloc_run memory).andThen (looped.andThen ends)

theorem overflow_run (range : 1 ≤ xferSize ∧ xferSize ≤ 65535) {memory : Block (toSize xferSize)} {calls : List Call}
    (chain : Chain upload xferSize 0 memory.val held calls last final) (overflows : Overflows xferSize calls) :
    Runs ((dfuloadDoUploadWith upload xferSize 0 fd).run held) (uploading fd memory calls ++ [⟨.exit exSoftware, ()⟩]) .halt := by
  obtain ⟨full, ⟨history, block⟩, rfl, all, short, few, large⟩ := overflows
  rw [received_append, List.length_append] at large
  obtain ⟨middle, kept, run, delivered, runs⟩ := @before_last upload xferSize fd _ _ _ range.1 memory full _ chain all short
  cases block with
  | none =>
    simp only [Call.received, Option.getD_none, List.length_nil] at large
    omega
  | some data =>
    rw [Call.received_delivered] at large few
    obtain ⟨negative, _⟩ := @total_next (received full).length data.length (by omega) (by omega) (by omega) (by omega)
    have looped : Runs ((Static.loop (uploadRoundWith upload xferSize fd) ⟨0, 0, memory.val⟩).run held)
        (full.flatMap (Call.events fd) ++ ((Call.mk history (some data)).events fd ++ [⟨.exit exSoftware, ()⟩])) .halt := by
      refine runs _ _ (.breaks ?_)
      refine round_run run (delivered data rfl) ?_
      rw [if_pos (negative.mpr (by omega))]
      exact .call (.here _)
    have history_ : uploading fd memory (full ++ [⟨history, some data⟩]) ++ [⟨.exit exSoftware, ()⟩] =
        [⟨.malloc (toSize xferSize), some memory⟩] ++
          (full.flatMap (Call.events fd) ++ ((Call.mk history (some data)).events fd ++ [⟨.exit exSoftware, ()⟩])) := by
      simp [uploading]
    rw [history_, dfuloadDoUploadWith]
    exact (malloc_run memory).andThen (looped.halts _)

end Runs

/-- The calls deliver an image in order, each as much of it as it was asked for. -/
def ServesImage (image : List UInt8) (xferSize : Int) (calls : List Call) : Prop :=
  ∀ (k : Nat) call, calls[k]? = some call → call.block = some ((image.drop (k * xferSize.toNat)).take xferSize.toNat)

theorem output_quiet {fd : Int} {now : History Calls} (quiet : AllQuiet now) : output fd now = [] := by
  refine List.flatMap_eq_nil_iff.mpr fun event member => ?_
  obtain ⟨op, answer⟩ := event
  cases op with
  | write file data => exact absurd rfl ((quiet _ member).1 file data)
  | _ => rfl

theorem chain_quiet {upload : Uploader} {xferSize : Int} {k : Nat} {buf after : List UInt8} {held kept : QdaBuf}
    {calls : List Call} (contract : Contract upload xferSize) (chain : Chain upload xferSize k buf held calls after kept)
    (room : (buf.length : Int) = xferSize) : ∀ call ∈ calls, AllQuiet call.history := by
  induction chain with
  | nil => simp
  | cons run _ _ ih =>
    obtain ⟨quiet, done⟩ := contract _ _ _ room _ _ run
    have after := (done _ rfl).2
    exact List.forall_mem_cons.mpr ⟨by simpa using quiet, ih after⟩

theorem output_uploading (fd : Int) {size : Nat} (memory : Block size) {calls : List Call}
    (quiet : ∀ call ∈ calls, AllQuiet call.history) : output fd (uploading fd memory calls) = received calls := by
  have events (call : Call) (member : call ∈ calls) : output fd (call.events fd) = call.received := by
    have silent : output fd call.history = [] := output_quiet (quiet call member)
    obtain ⟨history, block⟩ := call
    cases block with
    | none => exact silent
    | some block =>
      rw [Call.events, output, List.flatMap_append, ← output, silent]
      simp
  rw [uploading, output, List.flatMap_cons, List.nil_append, List.flatMap_assoc, received]
  exact List.flatMap_congr events

theorem served_received {image : List UInt8} {xferSize : Int} {calls : List Call} (serves : ServesImage image xferSize calls) :
    received calls = image.take (calls.length * xferSize.toNat) := by
  induction calls using List.reverseRecOn with
  | nil => simp [received]
  | append_singleton calls call ih =>
    have earlier : ServesImage image xferSize calls := by
      intro k found place
      refine serves k found ?_
      rw [List.getElem?_append_left (List.getElem?_eq_some_iff.mp place).1, place]
    have here : call.received = (image.drop (calls.length * xferSize.toNat)).take xferSize.toNat := by
      rw [Call.received, serves calls.length call (by simp)]
      rfl
    rw [received_append, ih earlier, here, List.length_append, List.length_singleton, Nat.succ_mul, List.take_add]

/-- A device that serves an image has it arrive whole. -/
theorem Stops.image {image : List UInt8} {xferSize : Int} {calls : List Call} {ret : Int} (stops : Stops xferSize calls ret)
    (serves : ServesImage image xferSize calls) : ret = 0 ∧ received calls = image := by
  have all := served_received serves
  obtain ⟨full, last, rfl, _, _, result⟩ := stops
  have block := serves full.length last (by simp)
  obtain ⟨failed, _⟩ | ⟨data, same, less, rfl⟩ := result
  · rw [failed] at block
    cases block
  · rw [block] at same
    cases same
    refine ⟨rfl, ?_⟩
    rw [all, List.take_of_length_le]
    rw [List.length_take, List.length_drop] at less
    rw [List.length_append, List.length_singleton, Nat.succ_mul]
    omega

section Device

variable {len transaction : UInt16} {data after : List UInt8} {qdaBuf held : QdaBuf} {rc : Int} {now : History Calls}

/-- The data in a response to an UPLOAD request, if it is one that may be taken. -/
def uploadedBlock (len : UInt16) (response : QdaBuf) : Option (List UInt8) :=
  if response.type = qdaPktDfuUploadResp ∧ (response.u16 4).toNat ≤ len.toNat then
    some ((response.bytes.drop 6).take (response.u16 4).toNat)
  else none

/-- A call of `dfu_upload`: its request went out, and if a response came that may be
taken, the data in it are at the front of the caller's buffer. -/
inductive Uploaded (len transaction : UInt16) (data : List UInt8) (qdaBuf : QdaBuf) : Call → List UInt8 → QdaBuf → Prop where
  | unsent {rc : Int} (refused : rc < 0) :
      Uploaded len transaction data qdaBuf ⟨sent [] (uploadRequest len transaction) rc, none⟩ data
        (qdaBuf.store 0 (uploadRequest len transaction))
  | refused {rc : Int} {received : Nat} {response : QdaBuf} (accepted : 0 ≤ rc) (useless : uploadedBlock len response = none) :
      Uploaded len transaction data qdaBuf ⟨answered [] (uploadRequest len transaction) rc
        (qdaBuf.store 0 (uploadRequest len transaction)) received response, none⟩ data response
  | delivered {rc : Int} {received : Nat} {response : QdaBuf} {block : List UInt8} (accepted : 0 ≤ rc)
      (taken : uploadedBlock len response = some block) (inside : 6 + (response.u16 4).toNat ≤ qdaBufSize) :
      Uploaded len transaction data qdaBuf ⟨answered [] (uploadRequest len transaction) rc
        (qdaBuf.store 0 (uploadRequest len transaction)) received response, some block⟩ (block ++ data.drop block.length) response

theorem runs_upload (room : len.toNat ≤ data.length) :
    Runs ((dfuUpload qdaConf len transaction data).run qdaBuf) now (.ret ((rc, after), held)) ↔
      ∃ block, Uploaded len transaction data qdaBuf ⟨now, block⟩ after held ∧ rc = (Call.mk now block).rc := by
  have inside (response : QdaBuf) (few : 6 + (response.u16 4).toNat ≤ qdaBufSize) :
      (response.pointer 6).load (response.u16 4).toNat = some ((response.bytes.drop 6).take (response.u16 4).toNat) :=
    Pointer.load_inside _ 6 _ (by rwa [response.size])
  have copies (block : List UInt8) (few : block.length ≤ len.toNat) : memcpy data 0 block = some (block ++ data.drop block.length) := by
    rw [memcpy, if_pos (by omega), Int.toNat_zero, patch_zero _ _ (by omega)]
  have short {response : QdaBuf} {block : List UInt8} (taken : uploadedBlock len response = some block)
      (whole : 6 + (response.u16 4).toNat ≤ qdaBufSize) : block.length = (response.u16 4).toNat := by
    unfold uploadedBlock at taken
    split at taken
    next =>
      cases taken
      rw [List.length_take, List.length_drop, response.size]
      omega
    next => cases taken
  rw [dfuUpload, qdaDfuUpload, ask_block, runs_seq]
  constructor
  · rintro ⟨ok, kept, early, late, asked, rest, rfl⟩
    obtain ⟨handed, ⟨refused, rfl, rfl, rfl⟩ | ⟨accepted, ⟨received, rfl⟩, rfl⟩⟩ :=
      (runs_ask _ _ _ (by simp [qdaBufSize]) _ _ _).mp asked
    · obtain ⟨rfl, same⟩ := (runs_ret _ _).mp rest
      cases same
      rw [List.append_nil]
      exact ⟨none, .unsent refused, rfl⟩
    by_cases typed : kept.type = qdaPktDfuUploadResp
    · rw [decide_eq_true typed, if_pos rfl, StateT.run_bind, StateT.run_get, pure_bind] at rest
      by_cases long : (kept.u16 4).toNat > len.toNat
      · simp only [if_pos long] at rest
        obtain ⟨rfl, same⟩ := (runs_ret _ _).mp rest
        cases same
        rw [List.append_nil]
        exact ⟨none, .refused accepted (if_neg fun fits => absurd fits.2 (Nat.not_le.mpr long)), rfl⟩
      · simp only [if_neg long] at rest
        have taken : uploadedBlock len kept = some ((kept.bytes.drop 6).take (kept.u16 4).toNat) := if_pos ⟨typed, Nat.not_lt.mp long⟩
        by_cases whole : 6 + (kept.u16 4).toNat ≤ qdaBufSize
        · have length := short taken whole
          simp only [inside kept whole, copies ((kept.bytes.drop 6).take (kept.u16 4).toNat) (by omega)] at rest
          obtain ⟨rfl, same⟩ := (runs_ret _ _).mp rest
          cases same
          rw [List.append_nil]
          exact ⟨_, .delivered accepted taken whole, by rw [Call.rc_delivered, length]⟩
        · have size : 6 ≤ qdaBufSize := by decide
          have outside : (kept.pointer 6).load (kept.u16 4).toNat = none :=
            Pointer.load_outside _ 6 _ (by omega) (by rw [kept.size]; omega)
          simp only [outside] at rest
          exact absurd rest runs_fault
    · rw [decide_eq_false typed, if_neg (by simp)] at rest
      obtain ⟨rfl, same⟩ := (runs_ret _ _).mp rest
      cases same
      rw [List.append_nil]
      exact ⟨none, .refused accepted (if_neg fun fits => typed fits.1), rfl⟩
  · rintro ⟨block, uploaded, rfl⟩
    have asked := runs_ask qdaBuf (uploadRequest len transaction) qdaPktDfuUploadResp (by simp [uploadRequest, qdaBufSize])
    cases uploaded with
    | unsent refused => exact ⟨false, _, _, [], (asked _ _ _).mpr ⟨_, .inl ⟨refused, rfl, rfl, rfl⟩⟩, .here _, by simp⟩
    | refused accepted useless =>
      refine ⟨_, _, _, [], (asked _ _ _).mpr ⟨_, .inr ⟨accepted, ⟨_, rfl⟩, rfl⟩⟩, ?_, (List.append_nil _).symm⟩
      by_cases typed : held.type = qdaPktDfuUploadResp
      · have long : (held.u16 4).toNat > len.toNat := by
          by_contra fits
          rw [uploadedBlock, if_pos ⟨typed, Nat.not_lt.mp fits⟩] at useless
          cases useless
        rw [decide_eq_true typed, if_pos rfl, StateT.run_bind, StateT.run_get, pure_bind]
        simp only [if_pos long]
        exact .here _
      · rw [decide_eq_false typed, if_neg (by simp)]
        exact .here _
    | @delivered _ _ _ block accepted taken whole =>
      have length := short taken whole
      unfold uploadedBlock at taken
      split at taken
      next fits =>
        cases taken
        refine ⟨_, _, _, [], (asked _ _ _).mpr ⟨_, .inr ⟨accepted, ⟨_, rfl⟩, rfl⟩⟩, ?_, (List.append_nil _).symm⟩
        have few : ¬(held.u16 4).toNat > len.toNat := Nat.not_lt.mpr fits.2
        rw [decide_eq_true fits.1, if_pos rfl, StateT.run_bind, StateT.run_get, pure_bind, Call.rc_delivered]
        simp only [if_neg few, inside held whole, copies ((held.bytes.drop 6).take (held.u16 4).toNat) (by omega), length]
        exact .here _
      next => cases taken

/-- The data that an exchange has delivered. -/
def deliveredIn (len : UInt16) (exchange : Exchange) : Option (List UInt8) := exchange.response.bind (uploadedBlock len)

theorem Uploaded.dialogue {call : Call} (uploaded : Uploaded len transaction data qdaBuf call after held) (now : History Calls) :
    ∃ exchange, Host.dialogue (now ++ call.history) = Host.dialogue now ++ [exchange] ∧
      exchange.request = uploadRequest len transaction ∧ deliveredIn len exchange = call.block := by
  have joined (rc : Int) : now ++ sent [] (uploadRequest len transaction) rc = sent now (uploadRequest len transaction) rc := by
    simp [sent]
  cases uploaded with
  | unsent refused => exact ⟨⟨uploadRequest len transaction, none⟩, by rw [joined, dialogue_sent], rfl, rfl⟩
  | refused _ useless =>
    exact ⟨⟨uploadRequest len transaction, some held⟩,
      by rw [answered, ← List.append_assoc, joined, ← answered, dialogue_answered], rfl, useless⟩
  | delivered _ taken _ =>
    exact ⟨⟨uploadRequest len transaction, some held⟩,
      by rw [answered, ← List.append_assoc, joined, ← answered, dialogue_answered], rfl, taken⟩

theorem Uploaded.front {block : List UInt8} (uploaded : Uploaded len transaction data qdaBuf ⟨now, some block⟩ after held) :
    after.take block.length = block := by
  cases uploaded with
  | delivered => exact List.take_left

theorem Uploaded.length {call : Call} (uploaded : Uploaded len transaction data qdaBuf call after held)
    (room : len.toNat ≤ data.length) : after.length = data.length := by
  cases uploaded with
  | unsent => rfl
  | refused => rfl
  | @delivered _ _ _ block _ taken _ =>
    unfold uploadedBlock at taken
    split at taken
    next fits =>
      cases taken
      rw [List.length_append, List.length_drop, List.length_take]
      omega
    next => cases taken

theorem chained_call {call : Call} (room : len.toNat ≤ data.length)
    (run : Runs ((dfuUpload qdaConf len transaction data).run qdaBuf) call.history (.ret ((call.rc, after), held)))
    (delivered : ∀ block, call.block = some block → after.take block.length = block) :
    Uploaded len transaction data qdaBuf call after held := by
  obtain ⟨block, uploaded, same⟩ := (runs_upload room).mp run
  obtain ⟨history, found⟩ := call
  cases block with
  | none =>
    cases found with
    | none => exact uploaded
    | some found => exact absurd same (show (found.length : Int) ≠ -1 by omega)
  | some block =>
    cases found with
    | none => exact absurd same (show (-1 : Int) ≠ block.length by omega)
    | some found =>
      have lengths : (found.length : Int) = block.length := same
      have length : found.length = block.length := by omega
      have front := delivered found rfl
      rw [length, uploaded.front] at front
      rwa [← front]

variable {xferSize : Int} {calls : List Call} {k : Nat}

/-- The dialogue of a chain: consecutive blocks are asked for, and the calls deliver what the responses hold. -/
theorem chain_dialogue (range : 1 ≤ xferSize ∧ xferSize ≤ 65535) (fd : Int)
    (chain : Chain (dfuUpload qdaConf) xferSize k data qdaBuf calls after held) (room : (data.length : Int) = xferSize) (now : History Calls) :
    ∃ exchanges, Host.dialogue (now ++ calls.flatMap (Call.events fd)) = Host.dialogue now ++ exchanges ∧
      exchanges.map Exchange.request =
        (List.range' k calls.length).map (fun k => uploadRequest (UInt16.ofInt xferSize) (UInt16.ofNat k)) ∧
      exchanges.map (deliveredIn (UInt16.ofInt xferSize)) = calls.map Call.block := by
  induction chain generalizing now with
  | nil => exact ⟨[], by simp, rfl, rfl⟩
  | @cons k data next last qdaBuf kept final call calls run delivered _ ih =>
    have len : (UInt16.ofInt xferSize).toNat = xferSize.toNat := by
      have same := @toNat_ofInt xferSize (by omega) (by omega)
      omega
    have fits : (UInt16.ofInt xferSize).toNat ≤ data.length := by omega
    have uploaded := chained_call fits run delivered
    obtain ⟨exchange, grown, request, block⟩ := uploaded.dialogue now
    have written : Host.dialogue (now ++ call.events fd) = Host.dialogue now ++ [exchange] := by
      obtain ⟨history, found⟩ := call
      cases found with
      | none => exact grown
      | some found => rw [Call.events, ← List.append_assoc, dialogue_aside _ ⟨by simp, by simp⟩, grown]
    obtain ⟨exchanges, more, requests, blocks⟩ := ih (by rw [uploaded.length fits]; exact room) (now ++ call.events fd)
    refine ⟨exchange :: exchanges, ?_, ?_, ?_⟩
    · rw [List.flatMap_cons, ← List.append_assoc, more, written, List.append_assoc, List.singleton_append]
    · rw [List.map_cons, request, requests, List.length_cons, List.range'_succ, List.map_cons]
    · rw [List.map_cons, block, blocks, List.map_cons]

end Device

theorem qda_contract {xferSize : Int} (range : 1 ≤ xferSize ∧ xferSize ≤ 65535) : Contract (dfuUpload qdaConf) xferSize := by
  intro block buf held room
  have len : ((UInt16.ofInt xferSize).toNat : Int) = xferSize := toNat_ofInt (by omega) range.2
  refine wp_upload (by omega) (by simp [AllQuiet]) ?_ ?_ ?_ ?_ ?_
  · exact fun rc => by simp [AllQuiet, Quiet, sent]
  · exact fun rc received after => by simp [AllQuiet, Quiet, sent, answered]
  · exact fun rc received after _ => by simp [AllQuiet, Quiet, sent, answered]
  · exact fun _ _ => ⟨.inl rfl, room⟩
  · intro count copied _ _ few length _
    exact ⟨.inr (by dsimp only; omega), by dsimp only; omega⟩

/-- What is meant by a faithful upload. Every run that returns has made its requests in order and written
what they delivered; it exits only when the total is too large; and both happen whenever they should. -/
structure UploadsFaithfully (upload : Uploader) (xferSize fd : Int) (qdaBuf : QdaBuf) : Prop where
  returns : ∀ now ret held, Runs ((dfuloadDoUploadWith upload xferSize 0 fd).run qdaBuf) now (.ret (ret, held)) →
    ∃ (memory : Block (toSize xferSize)) (calls : List Call) (after : List UInt8),
      Chain upload xferSize 0 memory.val qdaBuf calls after held ∧ Stops xferSize calls ret ∧
      now = uploading fd memory calls ∧ output fd now = received calls ∧
      ∀ image, ServesImage image xferSize calls → ret = 0 ∧ output fd now = image
  exits : ∀ now rest code, Runs ((dfuloadDoUploadWith upload xferSize 0 fd).run qdaBuf) now rest → Succeeds now →
    (⟨.exit code, ()⟩ : Event Calls) ∈ now → code = exSoftware ∧
      ∃ (memory : Block (toSize xferSize)) (calls : List Call) (after : List UInt8) (held : QdaBuf),
        Chain upload xferSize 0 memory.val qdaBuf calls after held ∧ Overflows xferSize calls ∧
        now = uploading fd memory calls ++ [⟨.exit exSoftware, ()⟩]
  occurs : ∀ (memory : Block (toSize xferSize)) (calls : List Call) (after : List UInt8) (held : QdaBuf),
    Chain upload xferSize 0 memory.val qdaBuf calls after held →
      (∀ ret, Stops xferSize calls ret →
        Runs ((dfuloadDoUploadWith upload xferSize 0 fd).run qdaBuf) (uploading fd memory calls) (.ret (ret, held))) ∧
      (Overflows xferSize calls → Runs ((dfuloadDoUploadWith upload xferSize 0 fd).run qdaBuf)
        (uploading fd memory calls ++ [⟨.exit exSoftware, ()⟩]) .halt)

/-- The upload is faithful with any upload routine, and `qda_dfu_upload` is one: each call
is one request and what the response delivers, and so is the upload as a whole. -/
theorem upload_writes_what_is_delivered {xferSize : Int} (range : 1 ≤ xferSize ∧ xferSize ≤ 65535) (fd : Int) :
    (∀ upload qdaBuf, Contract upload xferSize → UploadsFaithfully upload xferSize fd qdaBuf) ∧
      Contract (dfuUpload qdaConf) xferSize ∧
      (∀ expectedSize, dfuloadDoUpload xferSize expectedSize fd = dfuloadDoUploadWith (dfuUpload qdaConf) xferSize expectedSize fd) ∧
      ((UInt16.ofInt xferSize).toNat : Int) = xferSize ∧
      (∀ block buf qdaBuf now rc after held, (buf.length : Int) = xferSize →
        (Runs ((dfuUpload qdaConf (UInt16.ofInt xferSize) block buf).run qdaBuf) now (.ret ((rc, after), held)) ↔
          ∃ delivered, Uploaded (UInt16.ofInt xferSize) block buf qdaBuf ⟨now, delivered⟩ after held ∧ rc = (Call.mk now delivered).rc)) ∧
      ∀ qdaBuf now ret held, Runs ((dfuloadDoUpload xferSize 0 fd).run qdaBuf) now (.ret (ret, held)) →
        ∃ calls, Stops xferSize calls ret ∧ output fd now = received calls ∧
          (dialogue now).map Exchange.request =
            (List.range calls.length).map (fun k => uploadRequest (UInt16.ofInt xferSize) (UInt16.ofNat k)) ∧
          (dialogue now).map (deliveredIn (UInt16.ofInt xferSize)) = calls.map Call.block := by
  have len : ((UInt16.ofInt xferSize).toNat : Int) = xferSize := toNat_ofInt (by omega) range.2
  have faithful (upload : Uploader) (qdaBuf : QdaBuf) (contract : Contract upload xferSize) :
      UploadsFaithfully upload xferSize fd qdaBuf := by
    have spec := @dfuloadDoUpload_spec upload xferSize fd qdaBuf contract range
    refine ⟨?_, ?_, ?_⟩
    · intro now ret held run
      obtain ⟨memory, calls, after, chain, stops, rfl⟩ := spec.returns run
      have room : (memory.val.length : Int) = xferSize := by
        rw [memory.2]
        exact toSize_of_range (by omega) (by omega)
      have written := output_uploading fd memory (chain_quiet contract chain room)
      refine ⟨memory, calls, after, chain, stops, rfl, written, fun image serves => ?_⟩
      rw [written]
      exact stops.image serves
    · intro now rest code run succeeds member
      exact spec.safe run succeeds code member
    · intro memory calls after held chain
      exact ⟨fun ret => stops_run range.1 chain, overflow_run range chain⟩
  refine ⟨faithful, qda_contract range, fun _ => rfl, len, ?_, ?_⟩
  · intro block buf qdaBuf now rc after held room
    exact runs_upload (by omega)
  · intro qdaBuf now ret held run
    obtain ⟨memory, calls, after, chain, stops, rfl, written, _⟩ := (faithful _ qdaBuf (qda_contract range)).returns now ret held run
    have room : (memory.val.length : Int) = xferSize := by
      rw [memory.2]
      exact toSize_of_range (by omega) (by omega)
    obtain ⟨exchanges, talk, requests, blocks⟩ := chain_dialogue range fd chain room [⟨.malloc (toSize xferSize), some memory⟩]
    have silent : dialogue [(⟨.malloc (toSize xferSize), some memory⟩ : Event Calls)] = [] := rfl
    rw [silent, List.nil_append] at talk
    have whole : dialogue (uploading fd memory calls) = exchanges := talk
    refine ⟨calls, stops, written, ?_, ?_⟩
    · rw [whole, requests, List.range_eq_range']
    · rw [whole, blocks]

theorem upload_of_1024_is_faithful : UploadsFaithfully (dfuUpload qdaConf) 1024 3 QdaBuf.blank := by
  obtain ⟨faithful, contract, _⟩ := upload_writes_what_is_delivered (show (1 : Int) ≤ 1024 ∧ (1024 : Int) ≤ 65535 by omega) 3
  exact faithful _ _ contract

end DfuUtilQda.Dfu

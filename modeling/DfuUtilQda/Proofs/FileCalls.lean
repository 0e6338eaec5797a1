import DfuUtilQda.Dfu.File
import DfuUtilQda.Interaction.Complete
import DfuUtilQda.Interaction.Performs
import DfuUtilQda.Proofs.Dialogue

/-! Memory and files, as the routines use them: what is allocated, and what is written to a file. -/

namespace DfuUtilQda.Dfu
open Interaction Machine Qda Host

variable {now : History Calls} {held : QdaBuf} {fd : Int}

theorem malloc_run {size : Int} (memory : Block (toSize size)) :
    Runs ((dfuMalloc size).run held) [⟨.malloc (toSize size), some memory⟩] (.ret (memory.val, held)) := by
  rw [dfuMalloc, ← List.append_nil [_]]
  exact (@Runs.perform Calls QdaBuf (.malloc (toSize size)) (some memory) held).andThen (.here _)

theorem wp_fileWrite {always : History Calls → Prop} {crc : UInt32} {data : List UInt8}
    {post : UInt32 × QdaBuf → History Calls → Prop} (safe : always now)
    (written : ∀ count, always (now ++ [⟨.write fd data, count⟩]))
    (fails : ∀ count, count ≠ (data.length : Int) → always (now ++ [⟨.write fd data, count⟩] ++ [⟨.exit exIoerr, ()⟩]))
    (ends : post (data.foldl crc32Byte crc, held) (now ++ [⟨.write fd data, (data.length : Int)⟩])) :
    wp always ((dfuFileWriteCrc fd crc data).run held) post now := by
  rw [dfuFileWriteCrc, StateT.run_bind, wp_seq]
  refine (wp_perform_run _ _ _).mpr ⟨safe, fun count => ⟨written count, ?_⟩⟩
  dsimp only
  by_cases short : count ≠ (data.length : Int)
  · rw [if_pos short]
    exact (wp_exit _ _ _).mpr ⟨written count, fails count short⟩
  · rw [if_neg short]
    refine (wp_pure _).mpr ⟨written count, ?_⟩
    rw [not_not.mp short]
    exact ends

theorem fileWrite_run (crc : UInt32) (data : List UInt8) : Runs ((dfuFileWriteCrc fd crc data).run held)
    [⟨.write fd data, (data.length : Int)⟩] (.ret (data.foldl crc32Byte crc, held)) := by
  rw [dfuFileWriteCrc, ← List.append_nil [_]]
  refine (@Runs.perform Calls QdaBuf (.write fd data) (data.length : Int) held).andThen ?_
  rw [if_neg (by simp)]
  exact .here _

section Checks

variable {allowed : Op → Prop}

theorem performs_exit {α : Type} {code : Nat} (fine : allowed (.exit code)) :
    Static.Performs allowed (Host.exit code : Host.Code α) :=
  .bind (.perform fine) fun _ => .halt

theorem parseSuffix_error {file : DfuFile} {code : Nat} (error : parseSuffix file = .error code) : code = exIoerr := by
  unfold parseSuffix at error
  split at error
  · cases error
  dsimp only at error
  repeat' split at error
  all_goals cases error
  all_goals rfl

theorem checkFile_performs {verbose : Nat} {file : DfuFile} {checkSuffix : SuffixReq} {checkPrefix : PrefixReq}
    (exits : ∀ code, code ≠ 0 → allowed (.exit code)) (reports : ∀ found, allowed (.report found)) :
    Static.Performs allowed (checkFile verbose file checkSuffix checkPrefix) := by
  have fails {α : Type} : Static.Performs allowed (Host.exit exIoerr : Host.Code α) := performs_exit (exits _ (by decide))
  unfold checkFile
  split
  next code error =>
    rw [parseSuffix_error error]
    exact fails
  next missing file parsed =>
    split
    · exact fails
    split
    · exact performs_exit (exits _ (by decide))
    dsimp only
    split
    · exact fails
    split
    · exact fails
    split
    · refine .bind ?_ fun _ => .pure _
      unfold reportPrefix
      dsimp only
      split
      · exact .perform (reports _)
      · exact .perform (reports _)
      · exact fails
    · exact .pure _

end Checks

/-- What has been written to a file. -/
def output (fd : Int) (now : History Calls) : List UInt8 :=
  now.flatMap fun event => match event.op with
    | .write file data => if file = fd then data else []
    | _ => []

end DfuUtilQda.Dfu

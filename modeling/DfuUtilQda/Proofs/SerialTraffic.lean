import DfuUtilQda.Host.SerialIo
import DfuUtilQda.Proofs.LineTraffic

/-! The bytes on the descriptor. What the system calls of the driver carry is what the
transport says and hears on the line, and so the calls of the program. -/

namespace DfuUtilQda.Serial
open Interaction Machine Qda Host Xmodem Dfu

/-- What a system call is on the line, or which call of the host it is. -/
def observe : Event Sys → Option (Event Port)
  | ⟨.read _, (retv, ch)⟩ => some ⟨.inl .getc, if retv = 1 then some ch else none⟩
  | ⟨.write _ ch, _⟩ => some ⟨.inl (.putc ch), ()⟩
  | ⟨.fault, _⟩ => some ⟨.inl .fault, ()⟩
  | ⟨.host op, answer⟩ => some ⟨.inr op, answer⟩
  | _ => none

/-- The operations that are not about the settings or the state of the port. -/
def visible : Event Port → Bool
  | ⟨.inl (.setTimeout _), _⟩ => false
  | ⟨.inr (.serialIoOpen _ _), _⟩ | ⟨.inr .serialDetach, _⟩ | ⟨.inr .serialIoClose, _⟩ => false
  | _ => true

/-- The system calls with which the port is managed. -/
def Managing (op : Op) : Prop := ∀ answer, observe ⟨op, answer⟩ = none

section Driver

variable {io : SerialIo} {part : History Sys} {α : Type}

theorem managing_observed {code : Code α} {inner : Program Sys (α × SerialIo)} (performs : Static.Performs Managing code)
    (run : Runs (code.run io) part inner) : part.filterMap observe = [] := by
  rw [List.filterMap_eq_nil_iff]
  intro event member
  exact (run.performs (performs io)).2 event member event.answer

theorem xmodemSetTimeout_manages (ms : Int) : Static.Performs Managing (xmodemSetTimeout ms) := by
  refine .bind .get fun io => .bind (.perform fun _ => rfl) fun answer => ?_
  obtain ⟨ret, tio⟩ := answer
  dsimp only
  split
  · exact .pure _
  · exact .perform fun _ => rfl

theorem assign_manages (change : SerialIo → SerialIo) : Static.Performs Managing (assign change) :=
  .bind .get fun _ => .bind (.set _) fun _ => .perform fun _ => rfl

theorem serialDetach_manages : Static.Performs Managing serialDetach := by
  refine .bind .get fun io => .bind (.perform fun _ => rfl) fun answer => ?_
  obtain ⟨ret, status⟩ := answer
  dsimp only
  split
  · exact .pure _
  refine .bind (.perform fun _ => rfl) fun ret => ?_
  split
  · exact .pure _
  · exact .bind (.perform fun _ => rfl) fun _ => .perform fun _ => rfl

theorem serialIoOpen_manages (path : Option String) (speed : Int) : Static.Performs Managing (serialIoOpen path speed) := by
  refine .bind (.perform fun _ => rfl) fun handle => .bind (assign_manages _) fun _ => ?_
  split
  · exact .pure _
  refine .bind (.perform fun _ => rfl) fun tty => ?_
  split
  · exact .pure _
  refine .bind (.perform fun _ => rfl) fun answer => ?_
  obtain ⟨ret, tio⟩ := answer
  dsimp only
  split
  · exact .pure _
  refine .bind (assign_manages _) fun _ => .bind (.perform fun _ => rfl) fun _ => ?_
  split
  · exact .pure _
  refine .bind (.perform fun _ => rfl) fun ret => ?_
  split <;> exact .pure _

theorem serialIoClose_manages : Static.Performs Managing serialIoClose := by
  refine .bind .get fun io => ?_
  split
  · exact .pure _
  refine .bind (.perform fun _ => rfl) fun ret => ?_
  split
  · exact .pure _
  · exact .perform fun _ => rfl

theorem call_shows (op : Port.Op) (under : Op) (result : Answer under → Port.Answer op) {inner : Program Sys (Port.Answer op × SerialIo)}
    (code : (driver op).run io = .call (S := Sys) under fun answer => .ret (result answer, io))
    (seen : ∀ answer, visible ⟨op, result answer⟩ = true ∧ observe ⟨under, answer⟩ = some ⟨op, result answer⟩)
    (run : Runs ((driver op).run io) part inner) :
    (part.filterMap observe = [] ∧ ∀ answer held, inner = .ret (answer, held) → visible ⟨op, answer⟩ = false) ∨
    ∃ answer held, inner = .ret (answer, held) ∧ visible ⟨op, answer⟩ = true ∧ part.filterMap observe = [⟨op, answer⟩] := by
  rw [code] at run
  cases run with
  | here => exact .inl ⟨rfl, by intro answer held same; cases same⟩
  | @call _ _ answer _ _ later =>
    obtain ⟨shown, same⟩ := seen answer
    cases later with
    | here => exact .inr ⟨result answer, io, rfl, shown, by rw [List.filterMap_cons_some same, List.filterMap_nil]⟩

theorem xmodemGetc_run (io : SerialIo) : (driver (.inl .getc)).run io =
    .call (S := Sys) (.read io.serialHandle) fun answer => .ret (if answer.1 = 1 then some answer.2 else none, io) := by
  have same (answer : Int × UInt8) : StateT.run (do
      let found ← (if answer.1 = 1 then return .ok answer.2 else if answer.1 = 0 then return .error (-etimedout) else return .error (-eio) :
        Code (Except Int UInt8))
      return found.toOption) io = .ret (if answer.1 = 1 then some answer.2 else none, io) := by
    split
    · rfl
    · split <;> rfl
  exact congrArg (Program.call (S := Sys) (.read io.serialHandle)) (funext same)

theorem driver_shows : Shows driver observe visible := by
  intro op io part inner run
  have manages (performs : Static.Performs Managing (driver op)) (hidden : ∀ answer, visible ⟨op, answer⟩ = false) :
      part.filterMap observe = [] ∧ ∀ answer held, inner = .ret (answer, held) → visible ⟨op, answer⟩ = false :=
    ⟨managing_observed performs run, fun answer _ _ => hidden answer⟩
  obtain op | op := op
  · cases op with
    | setTimeout ms => exact .inl (manages (.bind (xmodemSetTimeout_manages _) fun _ => .pure _) fun _ => rfl)
    | getc => exact call_shows _ _ _ (xmodemGetc_run io) (fun _ => ⟨rfl, rfl⟩) run
    | putc ch => exact call_shows (.inl (.putc ch)) (.write io.serialHandle ch) (fun _ => ()) rfl (fun _ => ⟨rfl, rfl⟩) run
    | fault => exact call_shows (.inl .fault) .fault (fun _ => ()) rfl (fun _ => ⟨rfl, rfl⟩) run
  · have passes (same : driver (.inr op) = perform (.host op)) (seen : ∀ answer : Host.Answer op, visible ⟨.inr op, answer⟩ = true) :
        (part.filterMap observe = [] ∧ ∀ answer held, inner = .ret (answer, held) → visible ⟨.inr op, answer⟩ = false) ∨
        ∃ answer held, inner = .ret (answer, held) ∧ visible ⟨.inr op, answer⟩ = true ∧ part.filterMap observe = [⟨.inr op, answer⟩] :=
      call_shows (.inr op) (.host op) (fun answer => answer) (by rw [same]; rfl) (fun answer => ⟨seen answer, rfl⟩) run
    cases op with
    | serialIoOpen path speed => exact .inl (manages (serialIoOpen_manages path speed) fun _ => rfl)
    | serialDetach => exact .inl (manages serialDetach_manages fun _ => rfl)
    | serialIoClose => exact .inl (manages (.bind serialIoClose_manages fun _ => .pure _) fun _ => rfl)
    | _ => exact passes rfl fun _ => rfl

/-- Down to the system calls `main` does what it does over calls. What is read from the descriptor and
written to it is the traffic of these calls, and the host is asked for what it is asked for beside the line. -/
theorem descriptor_carries_calls (pageSize : Option Int) (root : QdaIf) (argv : List Opt) (qdaBuf : QdaBuf) (pktBuf : XmodemPacket)
    (io : SerialIo) :
    wp (fun low => ∃ high middle line, Runs ((main pageSize root argv).run qdaBuf) high middle ∧
        Talking ((main pageSize root argv).run qdaBuf) high (History.lefts line) ∧ History.rights line = besideLine high ∧
        low.filterMap observe = line.filter visible)
      ((mainOnSerial pageSize root argv qdaBuf pktBuf).run io)
      (fun result low => ∃ high line, Runs ((main pageSize root argv).run qdaBuf) high (.ret result.1.1) ∧
        Traffic high (History.lefts line) ∧ History.rights line = besideLine high ∧
        low.filterMap observe = line.filter visible) [] := by
  have over_line := transported pktBuf ((main pageSize root argv).run qdaBuf)
  apply (handled_observed driver_shows io ((mainOnLine pageSize root argv qdaBuf).run pktBuf)).mono
  · intro low reached
    obtain ⟨line, rest, run, seen⟩ := reached
    obtain ⟨high, middle, ran, talking, beside⟩ := over_line.safe run
    exact ⟨high, middle, line, ran, talking, beside, seen⟩
  · intro result low _ reached
    obtain ⟨line, run, seen⟩ := reached
    obtain ⟨high, ran, traffic, beside⟩ := over_line.returns run
    exact ⟨high, line, ran, traffic, beside, seen⟩

end Driver

end DfuUtilQda.Serial

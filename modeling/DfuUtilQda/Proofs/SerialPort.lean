import DfuUtilQda.Host.SerialIo
import DfuUtilQda.Proofs.SessionOrder

/-! The port of a session. It is opened once, and all that is done with it is done
through the descriptor that was opened, between its being set up and its being given
back; and a session that is interrupted gives it back as well. -/

namespace DfuUtilQda.Host
open Interaction Machine Qda Xmodem Dfu

/-- What has become of the port, as the program sees it. -/
inductive Standing where
  | absent | refused | ready | closed
  deriving DecidableEq

namespace Standing

def may (phase : Standing) : Xmodem.Op ⊕ Host.Op → Prop
  | .inl _ => phase = ready
  | .inr (.serialIoOpen _ _) => phase = absent
  | .inr .serialDetach | .inr .serialIoClose => phase = ready
  | .inr _ => True

def next (phase : Standing) : Event Port → Standing
  | ⟨.inr (.serialIoOpen _ _), ret⟩ => if (show Int from ret) < 0 then refused else ready
  | ⟨.inr .serialIoClose, _⟩ => closed
  | _ => phase

end Standing

/-- The line is used while the port is open. -/
def usage : Monitor Port Standing := ⟨Standing.may, Standing.next⟩

def Turn.phase : Turn → Standing
  | loading => .absent
  | refused => .refused
  | closed => .closed
  | _ => .ready

/-- The port as a session has it that waits for no response but on an open port. -/
structure Turn.At (turn : Turn) (phase : Standing) : Prop where
  phase : phase = turn.phase
  onward : ∀ onward, turn = .awaiting onward → onward.phase = .ready ∧ ∀ further, onward ≠ .awaiting further

section Phases

variable {turn onward : Turn} {phase : Standing} {pktBuf : XmodemPacket} {α : Type}

theorem Turn.asks_ready {request : Device.Request} (asks : turn.asks request = some onward) :
    turn.phase = .ready ∧ onward.phase = .ready ∧ ∀ further, onward ≠ .awaiting further := by
  cases turn with
  | attached | described | selected | settling | sent | dnloading | uploading | detached =>
    cases request
    all_goals cases asks
    all_goals exact ⟨rfl, rfl, by simp⟩
  | _ => cases asks

theorem onLine_follows (code : Xmodem.Code α) :
    Follows usage (onLine code) (fun _ _ after => after = .ready) pktBuf .ready :=
  .of_performs fun _ => Program.left_performs fun _ => ⟨rfl, fun _ => rfl⟩

theorem sent_at {data : List UInt8} (may : order.may turn (.send data)) :
    turn.phase = .ready ∧ ∀ rc, (order.next turn ⟨.send data, rc⟩).At .ready := by
  obtain ⟨request, fits, rfl, small, due⟩ := may
  obtain ⟨onward, asks⟩ := Option.ne_none_iff_exists'.mp due
  obtain ⟨now, ready, last⟩ := Turn.asks_ready asks
  refine ⟨now, fun rc => ?_⟩
  rw [(send_turn fits small asks rc).2]
  split
  · exact ⟨ready.symm, fun further same => absurd same (last further)⟩
  · exact ⟨rfl, fun further same => by cases same; exact ⟨ready, last⟩⟩

theorem transport_usage (op : Op) (at_ : turn.At phase) (may : order.may turn op) :
    Follows usage (transport op) (fun answer _ after => (order.next turn ⟨op, answer⟩).At after) pktBuf phase := by
  obtain ⟨rfl, onward⟩ := at_
  cases op with
  | send data =>
    obtain ⟨ready, kept⟩ := sent_at may
    rw [ready]
    apply (onLine_follows _).imp
    intro rc _ after there
    rw [there]
    exact kept rc
  | receive asked =>
    obtain ⟨further, rfl⟩ := may
    obtain ⟨ready, last⟩ := onward further rfl
    have open_ : (Turn.awaiting further).phase = .ready := rfl
    rw [open_]
    apply (onLine_follows _).imp
    intro answer _ after there
    rw [there]
    exact ⟨ready.symm, fun later same => absurd same (last later)⟩
  | serialIoOpen path speed =>
    obtain rfl : turn = .loading := may
    apply Follows.perform rfl
    intro (ret : Int)
    change (if ret < 0 then Turn.refused else Turn.opened).At (if ret < 0 then Standing.refused else Standing.ready)
    split
    · exact ⟨rfl, by simp⟩
    · exact ⟨rfl, by simp⟩
  | serialDetach =>
    obtain rfl | rfl := may
    · exact .perform rfl fun _ => ⟨rfl, by simp [order, Turn.next]⟩
    · exact .perform rfl fun _ => ⟨rfl, by simp [order, Turn.next]⟩
  | serialIoClose =>
    have ready : turn.phase = .ready := by
      obtain rfl | rfl | rfl | rfl | rfl | rfl := may <;> rfl
    rw [ready]
    exact .perform rfl fun _ => ⟨rfl, by simp [order, Turn.next]⟩
  | _ => exact .perform trivial fun _ => ⟨rfl, onward⟩

theorem mainOnLine_usage (pageSize : Option Int) (root : QdaIf) (argv : List Opt) (qdaBuf : QdaBuf) :
    Follows usage (mainOnLine pageSize root argv qdaBuf) (fun result _ after => result.1 = 0 ∧ after = .closed) pktBuf .absent := by
  have begins : Turn.loading.At .absent := ⟨rfl, by simp⟩
  have carries (turn : Turn) (held : XmodemPacket) (phase : Standing) (op : Op) (at_ : turn.At phase) (may : order.may turn op) :
      Follows usage (transport op) (fun answer _ after => (order.next turn ⟨op, answer⟩).At after) held phase :=
    transport_usage op at_ may
  apply (Follows.handle carries answerable begins (main_follows pageSize root argv qdaBuf)).imp
  intro result _ after done
  obtain ⟨turn, ⟨zero, rfl⟩, at_⟩ := done
  exact ⟨zero, at_.phase⟩

end Phases

end DfuUtilQda.Host

namespace DfuUtilQda.Serial
open Interaction Machine Qda Host Xmodem Dfu

/-- What has become of the port, as the system sees it. `io` is what the driver was told: the descriptor, and the settings
that the port had before anything was changed. It is known when it was told, and saved when it is in the static variables. -/
inductive Custody where
  | fresh
  | failed
  | opening (fd : Int)
  | opened (fd : Int)
  | terminal (fd : Int)
  | known (io : SerialIo)
  | saved (io : SerialIo)
  | armed (io : SerialIo)
  | line (io : SerialIo)
  | adjusting (io : SerialIo) (current : Termios)
  | raising (io : SerialIo) (status : UInt32)
  | raised (io : SerialIo) (status : UInt32)
  | lowering (io : SerialIo) (status : UInt32)
  | restored (io : SerialIo)
  | stuck (io : SerialIo)
  | closed (io : SerialIo)

/-- The settings of the line at a speed there is. -/
def IsLine (tio : Termios) : Prop :=
  ∃ speed baud, serialSpeed speed = some baud ∧ tio = (lineTermios.cfsetospeed baud).cfsetispeed baud

example : ((lineTermios.cfsetospeed 0o10002).cfsetispeed 0o10002).cCflag = 0o14262 := by decide

namespace Custody

/-- What may be done with the port. What it takes to give it back is stored before a signal is asked for. Its settings
are changed to those of the line, then in nothing but the timeout, and then back. RTS is the only modem line that is moved. -/
def may (custody : Custody) : Op → Prop
  | .open _ => custody = fresh
  | .isatty fd => custody = opened fd
  | .tcgetattr fd => custody = terminal fd ∨ ∃ io, custody = line io ∧ fd = io.serialHandle
  | .signal sig => sig = sigint ∧ ∃ io, custody = saved io
  | .tcsetattr fd tio => match custody with
    | armed io => fd = io.serialHandle ∧ IsLine tio
    | adjusting io current => fd = io.serialHandle ∧ ∃ time, tio = current.setCc vtime time
    | line io => fd = io.serialHandle ∧ tio = io.tioInitial
    | _ => False
  | .tiocmget fd => ∃ io, custody = line io ∧ fd = io.serialHandle
  | .tiocmset fd status => match custody with
    | raising io before => fd = io.serialHandle ∧ status = before ||| tiocmRts
    | lowering io before => fd = io.serialHandle ∧ status = (before ||| tiocmRts) &&& ~~~tiocmRts
    | _ => False
  | .usleep usec => usec = 100000 ∧ ∃ io status, custody = raised io status
  | .read fd | .write fd _ => ∃ io, custody = line io ∧ fd = io.serialHandle
  | .close fd => ∃ io, custody = restored io ∧ fd = io.serialHandle
  | .exit _ => False
  | .store held => match custody with
    | opening fd => held.serialHandle = fd
    | known io => held = io
    | _ => False
  | .fault | .host _ => True

def next (custody : Custody) : Event Sys → Custody
  | ⟨.open _, handle⟩ => opening handle
  | ⟨.isatty fd, (ret : Int)⟩ => if ret = 1 then terminal fd else failed
  | ⟨.tcgetattr fd, (ret, tio)⟩ => match custody with
    | line io => if ret < 0 then custody else adjusting io tio
    | _ => if ret = 0 then known ⟨fd, tio⟩ else failed
  | ⟨.store _, _⟩ => match custody with
    | opening fd => if fd = -1 then failed else opened fd
    | known io => saved io
    | _ => custody
  | ⟨.signal _, _⟩ => match custody with
    | saved io => armed io
    | _ => custody
  | ⟨.tcsetattr _ _, (ret : Int)⟩ => match custody with
    | armed io => if ret < 0 then custody else line io
    | adjusting io _ => line io
    | line io => if ret = 0 then restored io else stuck io
    | _ => custody
  | ⟨.tiocmget _, (ret, status)⟩ => match custody with
    | line io => if ret < 0 then custody else raising io status
    | _ => custody
  | ⟨.tiocmset _ _, (ret : Int)⟩ => match custody with
    | raising io before => if ret < 0 then line io else raised io before
    | lowering io _ => line io
    | _ => custody
  | ⟨.usleep _, _⟩ => match custody with
    | raised io before => lowering io before
    | _ => custody
  | ⟨.close _, _⟩ => match custody with
    | restored io => closed io
    | _ => custody
  | _ => custody

end Custody

def custody : Monitor Sys Custody := ⟨Custody.may, Custody.next⟩

section Driver

variable {io : SerialIo} {phase : Standing}

/-- How the two views of the port agree between two calls of the driver, and what it has in its static variables then. -/
def Keeps (phase : Standing) (io : SerialIo) (kept : Custody) : Prop :=
  match phase with
  | .absent => kept = .fresh
  | .refused => True
  | .ready => kept = .line io ∧ io.serialHandle ≠ -1
  | .closed => kept = .closed io ∨ kept = .stuck io

theorem assign_seq {α : Type} {change : SerialIo → SerialIo} {state : Custody} {rest : Unit → Code α} {post : α → SerialIo → Custody → Prop}
    (turn : custody.may state (.store (change io)))
    (more : Follows custody (rest ()) post (change io) (custody.next state ⟨.store (change io), ()⟩)) :
    Follows custody (assign change >>= rest) post io state := by
  rw [assign, bind_assoc]
  apply Follows.get_seq
  rw [bind_assoc]
  apply Follows.set_seq
  exact Follows.perform_seq (S := Sys) turn fun _ => more

theorem xmodemPutc_follows (ch : UInt8) :
    Follows custody (xmodemPutc ch) (fun _ held after => held = io ∧ after = .line io) io (.line io) :=
  Follows.get_seq (Follows.perform_seq (S := Sys) (⟨io, rfl, rfl⟩ : custody.may (.line io) (.write io.serialHandle ch))
    fun _ => .pure ⟨rfl, rfl⟩)

theorem xmodemGetc_follows : Follows custody xmodemGetc (fun _ held after => held = io ∧ after = .line io) io (.line io) := by
  apply Follows.get_seq
  apply Follows.perform_seq (S := Sys) (⟨io, rfl, rfl⟩ : custody.may (.line io) (.read io.serialHandle))
  intro answer
  obtain ⟨retv, ch⟩ := answer
  dsimp only
  split
  · exact .pure ⟨rfl, rfl⟩
  split <;> exact .pure ⟨rfl, rfl⟩

theorem xmodemSetTimeout_follows (ms : Int) :
    Follows custody (xmodemSetTimeout ms) (fun _ held after => held = io ∧ after = .line io) io (.line io) := by
  apply Follows.get_seq
  apply Follows.perform_seq (S := Sys) (.inr ⟨io, rfl, rfl⟩ : custody.may (.line io) (.tcgetattr io.serialHandle))
  intro answer
  obtain ⟨ret, tio⟩ := answer
  have reads : custody.next (.line io) ⟨.tcgetattr io.serialHandle, (ret, tio)⟩ = if ret < 0 then .line io else .adjusting io tio := rfl
  rw [reads]
  dsimp only
  split
  · exact .pure ⟨rfl, rfl⟩
  · exact .perform ⟨rfl, _, rfl⟩ fun _ => ⟨rfl, rfl⟩

theorem serialDetach_follows : Follows custody serialDetach (fun _ held after => held = io ∧ after = .line io) io (.line io) := by
  apply Follows.get_seq
  apply Follows.perform_seq (S := Sys) (⟨io, rfl, rfl⟩ : custody.may (.line io) (.tiocmget io.serialHandle))
  intro answer
  obtain ⟨ret, status⟩ := answer
  have reads : custody.next (.line io) ⟨.tiocmget io.serialHandle, (ret, status)⟩ = if ret < 0 then .line io else .raising io status := rfl
  rw [reads]
  dsimp only
  split
  · exact .pure ⟨rfl, rfl⟩
  apply Follows.perform_seq (S := Sys) (⟨rfl, rfl⟩ : custody.may (.raising io status) (.tiocmset io.serialHandle _))
  intro (ret : Int)
  have raises : custody.next (.raising io status) ⟨.tiocmset io.serialHandle (status ||| tiocmRts), ret⟩ =
      if ret < 0 then .line io else .raised io status := rfl
  rw [raises]
  split
  · exact .pure ⟨rfl, rfl⟩
  apply Follows.perform_seq (S := Sys) (⟨rfl, io, status, rfl⟩ : custody.may (.raised io status) (.usleep 100000))
  intro _
  exact .perform ⟨rfl, rfl⟩ fun _ => ⟨rfl, rfl⟩

theorem serialIoOpen_follows (path : Option String) (speed : Int) :
    Follows custody (serialIoOpen path speed) (fun ret held after => 0 ≤ ret → after = .line held ∧ held.serialHandle = ret) io .fresh := by
  rw [serialIoOpen]
  apply Follows.perform_seq (S := Sys) (rfl : custody.may .fresh (.open path))
  intro (handle : Int)
  have opens : custody.next .fresh ⟨.open path, handle⟩ = .opening handle := rfl
  rw [opens]
  apply assign_seq
  · exact rfl
  have stores : custody.next (.opening handle) ⟨.store { io with serialHandle := handle }, ()⟩ =
      if handle = -1 then .failed else .opened handle := rfl
  rw [stores]
  split
  · exact .pure fun impossible => absurd impossible (by decide)
  apply Follows.perform_seq (S := Sys) (rfl : custody.may (.opened handle) (.isatty handle))
  intro (ret : Int)
  have tests : custody.next (.opened handle) ⟨.isatty handle, ret⟩ = if ret = 1 then .terminal handle else .failed := rfl
  rw [tests]
  by_cases terminal : ret = 1
  · rw [if_pos terminal, if_neg (not_not.mpr terminal)]
    apply Follows.perform_seq (S := Sys) (.inl rfl : custody.may (.terminal handle) (.tcgetattr handle))
    intro answer
    obtain ⟨ret, tio⟩ := answer
    have reads : custody.next (.terminal handle) ⟨.tcgetattr handle, (ret, tio)⟩ = if ret = 0 then .known ⟨handle, tio⟩ else .failed := rfl
    rw [reads]
    dsimp only
    by_cases known : ret = 0
    · rw [if_pos known, if_neg (not_not.mpr known)]
      apply assign_seq
      · exact rfl
      apply Follows.perform_seq (S := Sys) (⟨rfl, _, rfl⟩ : custody.may (.saved ⟨handle, tio⟩) (.signal sigint))
      intro _
      change Follows custody _ _ (⟨handle, tio⟩ : SerialIo) (.armed ⟨handle, tio⟩)
      split
      · exact .pure fun impossible => absurd impossible (by decide)
      next baud supported =>
        apply Follows.perform_seq (S := Sys) (⟨rfl, speed, baud, supported, rfl⟩ :
          custody.may (.armed ⟨handle, tio⟩) (.tcsetattr handle ((lineTermios.cfsetospeed baud).cfsetispeed baud)))
        intro (ret : Int)
        have sets : custody.next (.armed ⟨handle, tio⟩) ⟨.tcsetattr handle ((lineTermios.cfsetospeed baud).cfsetispeed baud), ret⟩ =
            if ret < 0 then .armed ⟨handle, tio⟩ else .line ⟨handle, tio⟩ := rfl
        rw [sets]
        split
        · exact .pure fun impossible => absurd impossible (by decide)
        · exact .pure fun _ => ⟨rfl, rfl⟩
    · rw [if_neg known, if_pos known]
      exact .pure fun impossible => absurd impossible (by decide)
  · rw [if_neg terminal, if_pos terminal]
    exact .pure fun impossible => absurd impossible (by decide)

theorem serialIoClose_follows (valid : io.serialHandle ≠ -1) :
    Follows custody serialIoClose (fun _ held after => held = io ∧ (after = .closed io ∨ after = .stuck io)) io (.line io) := by
  apply Follows.get_seq
  rw [if_neg valid]
  apply Follows.perform_seq (S := Sys) (⟨rfl, rfl⟩ : custody.may (.line io) (.tcsetattr io.serialHandle io.tioInitial))
  intro (ret : Int)
  have restores : custody.next (.line io) ⟨.tcsetattr io.serialHandle io.tioInitial, ret⟩ =
      if ret = 0 then .restored io else .stuck io := rfl
  rw [restores]
  by_cases done : ret = 0
  · rw [if_pos done, if_neg (not_not.mpr done)]
    exact .perform ⟨io, rfl, rfl⟩ fun _ => ⟨rfl, .inl rfl⟩
  · rw [if_neg done, if_pos done]
    exact .pure ⟨rfl, .inr rfl⟩

theorem driver_keeps (op : Port.Op) {kept : Custody} (keeps : Keeps phase io kept) (may : usage.may phase op) :
    Follows custody (driver op) (fun answer held after => Keeps (usage.next phase ⟨op, answer⟩) held after) io kept := by
  obtain op | op := op
  · obtain rfl : phase = .ready := may
    obtain ⟨rfl, valid⟩ := keeps
    cases op with
    | getc =>
      apply (@xmodemGetc_follows io).bind
      intro found held after there
      obtain ⟨rfl, rfl⟩ := there
      exact .pure ⟨rfl, valid⟩
    | putc ch =>
      apply (xmodemPutc_follows ch).imp
      intro _ held after there
      obtain ⟨rfl, rfl⟩ := there
      exact ⟨rfl, valid⟩
    | setTimeout ms =>
      apply (@xmodemSetTimeout_follows io ms).bind
      intro ret held after there
      obtain ⟨rfl, rfl⟩ := there
      exact .pure ⟨rfl, valid⟩
    | fault => exact .perform trivial fun _ => ⟨rfl, valid⟩
  · cases op with
    | serialIoOpen path speed =>
      obtain rfl : phase = .absent := may
      obtain rfl : kept = .fresh := keeps
      apply (serialIoOpen_follows path speed).imp
      intro ret held after opened
      change Keeps (if ret < 0 then .refused else .ready) held after
      split
      · trivial
      next accepted =>
        obtain ⟨there, same⟩ := opened (Int.not_lt.mp accepted)
        exact ⟨there, by omega⟩
    | serialDetach =>
      obtain rfl : phase = .ready := may
      obtain ⟨rfl, valid⟩ := keeps
      apply serialDetach_follows.imp
      intro ret held after there
      obtain ⟨rfl, rfl⟩ := there
      exact ⟨rfl, valid⟩
    | serialIoClose =>
      obtain rfl : phase = .ready := may
      obtain ⟨rfl, valid⟩ := keeps
      apply (serialIoClose_follows valid).bind
      intro ret held after there
      obtain ⟨rfl, there⟩ := there
      exact .pure there
    | _ => exact .perform trivial fun _ => keeps

theorem port_answerable (op : Port.Op) : Nonempty (Port.Answer op) := by
  obtain op | op := op
  · cases op with
    | getc => exact ⟨none⟩
    | putc | setTimeout | fault => exact ⟨()⟩
  · exact answerable op

theorem mainOnSerial_follows (pageSize : Option Int) (root : QdaIf) (argv : List Opt) (qdaBuf : QdaBuf) (pktBuf : XmodemPacket) :
    Follows custody (mainOnSerial pageSize root argv qdaBuf pktBuf)
      (fun result held after => result.1.1 = 0 ∧ (after = .closed held ∨ after = .stuck held)) io .fresh := by
  have carries (phase : Standing) (held : SerialIo) (kept : Custody) (op : Port.Op) (keeps : Keeps phase held kept)
      (may : usage.may phase op) :
      Follows custody (driver op) (fun answer held after => Keeps (usage.next phase ⟨op, answer⟩) held after) held kept :=
    driver_keeps op keeps may
  have begins : Keeps .absent io .fresh := rfl
  apply (Follows.handle carries port_answerable begins (mainOnLine_usage pageSize root argv qdaBuf)).imp
  intro result held after done
  obtain ⟨phase, ⟨zero, rfl⟩, keeps⟩ := done
  exact ⟨zero, keeps⟩

/-- All that a session does with the port it does through the one descriptor that it has opened, in the order of
its custody. On return the settings that the port had are restored and it is closed, unless they were refused. -/
theorem port_in_custody (pageSize : Option Int) (root : QdaIf) (argv : List Opt) (qdaBuf : QdaBuf) (pktBuf : XmodemPacket) :
    wp (custody.Accepts .fresh) ((mainOnSerial pageSize root argv qdaBuf pktBuf).run io) (fun result now => result.1.1.1 = 0 ∧
      (custody.after .fresh now = .closed result.2 ∨ custody.after .fresh now = .stuck result.2)) [] :=
  mainOnSerial_follows pageSize root argv qdaBuf pktBuf

end Driver

section Interrupts

variable {now later : History Sys} {event : Event Sys} {begun io : SerialIo} {fd : Int} {kept : Custody}

/-- The port is as it was found, and nothing has been asked for in case of a signal. -/
def Untouched (now : History Sys) : Prop := ∀ event ∈ now, (∀ fd tio, event.op ≠ .tcsetattr fd tio) ∧ ∀ sig, event.op ≠ .signal sig

/-- What the driver was told: the descriptor, and the settings while the port was as it was found. -/
def Told (now : History Sys) (io : SerialIo) : Prop := io.serialHandle ≠ -1 ∧ ∃ path early later,
  now = early ++ ⟨.tcgetattr io.serialHandle, (0, io.tioInitial)⟩ :: later ∧ ⟨.open path, io.serialHandle⟩ ∈ early ∧ Untouched early

/-- What the driver was told is in its static variables. -/
def Stored (begun : SerialIo) (now : History Sys) (io : SerialIo) : Prop := Told now io ∧ statics begun now = io

/-- What is known of a history that has left the port there. -/
def Backed (begun : SerialIo) (now : History Sys) : Custody → Prop
  | .fresh | .failed => Untouched now
  | .opening fd => Untouched now ∧ ∃ path, ⟨.open path, fd⟩ ∈ now
  | .opened fd | .terminal fd => Untouched now ∧ fd ≠ -1 ∧ ∃ path, ⟨.open path, fd⟩ ∈ now
  | .known io => Untouched now ∧ Told now io
  | .saved io | .armed io | .line io | .adjusting io _ | .raising io _ | .raised io _ | .lowering io _ | .restored io | .stuck io
  | .closed io => Stored begun now io

theorem statics_store {held : SerialIo} : statics io (now ++ [⟨.store held, ()⟩]) = held := by
  rw [statics, List.foldl_append, List.foldl_cons, List.foldl_nil]

/-- Nothing but a store changes the static variables. -/
theorem statics_snoc (stores : ∀ held, event.op ≠ .store held) : statics io (now ++ [event]) = statics io now := by
  rw [statics, statics, List.foldl_append, List.foldl_cons, List.foldl_nil]
  split
  next kept same => exact absurd same (stores kept)
  next => rfl

theorem Untouched.snoc (untouched : Untouched now) (sets : ∀ fd tio, event.op ≠ .tcsetattr fd tio)
    (asks : ∀ sig, event.op ≠ .signal sig) : Untouched (now ++ [event]) := by
  intro found member
  obtain early | last := List.mem_append.mp member
  · exact untouched found early
  · rw [List.mem_singleton.mp last]
    exact ⟨sets, asks⟩

theorem Told.snoc (told : Told now io) : Told (now ++ [event]) io := by
  obtain ⟨valid, path, early, later, rfl, opened, untouched⟩ := told
  exact ⟨valid, path, early, later ++ [event], by simp, opened, untouched⟩

theorem Stored.snoc (stored : Stored begun now io) (stores : ∀ held, event.op ≠ .store held) : Stored begun (now ++ [event]) io :=
  ⟨stored.1.snoc, (statics_snoc stores).trans stored.2⟩

theorem Backed.keeps (backed : Backed begun now kept) (sets : ∀ fd tio, event.op ≠ .tcsetattr fd tio)
    (asks : ∀ sig, event.op ≠ .signal sig) (stores : ∀ held, event.op ≠ .store held) : Backed begun (now ++ [event]) kept := by
  cases kept with
  | fresh | failed => exact Untouched.snoc backed sets asks
  | opening =>
    obtain ⟨untouched, path, opened⟩ := backed
    exact ⟨untouched.snoc sets asks, path, List.mem_append_left _ opened⟩
  | opened | terminal =>
    obtain ⟨untouched, valid, path, opened⟩ := backed
    exact ⟨untouched.snoc sets asks, valid, path, List.mem_append_left _ opened⟩
  | known => exact ⟨backed.1.snoc sets asks, backed.2.snoc⟩
  | _ => exact Stored.snoc backed stores

theorem Backed.step (backed : Backed begun now kept) (may : custody.may kept event.op) :
    Backed begun (now ++ [event]) (custody.next kept event) := by
  obtain ⟨op, answer⟩ := event
  cases op with
  | «open» path =>
    obtain rfl : kept = .fresh := may
    exact ⟨Untouched.snoc backed (by simp) (by simp), path, by simp⟩
  | isatty fd =>
    obtain rfl : kept = .opened fd := may
    have same : Backed begun (now ++ [⟨.isatty fd, answer⟩]) (.opened fd) := backed.keeps (by simp) (by simp) (by simp)
    change Backed _ _ (if (show Int from answer) = 1 then .terminal fd else .failed)
    split
    · exact same
    · exact same.1
  | tcgetattr fd =>
    obtain ⟨ret, tio⟩ := answer
    obtain rfl | ⟨io, rfl, rfl⟩ := may
    · obtain ⟨untouched, valid, path, opened⟩ := backed
      change Backed _ _ (if ret = 0 then .known ⟨fd, tio⟩ else .failed)
      split
      next known =>
        subst known
        exact ⟨untouched.snoc (by simp) (by simp), valid, path, now, [], rfl, opened, untouched⟩
      · exact untouched.snoc (by simp) (by simp)
    · have stored : Stored begun now io := backed
      change Backed _ _ (if ret < 0 then .line io else .adjusting io tio)
      split
      · exact stored.snoc (by simp)
      · exact stored.snoc (by simp)
  | signal sig =>
    obtain ⟨rfl, io, rfl⟩ := may
    have stored : Stored begun now io := backed
    exact stored.snoc (by simp)
  | tcsetattr fd tio =>
    cases kept with
    | armed io =>
      have stored : Stored begun now io := backed
      change Backed _ _ (if (show Int from answer) < 0 then .armed io else .line io)
      split
      · exact stored.snoc (by simp)
      · exact stored.snoc (by simp)
    | adjusting io current =>
      have stored : Stored begun now io := backed
      exact stored.snoc (by simp)
    | line io =>
      have stored : Stored begun now io := backed
      change Backed _ _ (if (show Int from answer) = 0 then .restored io else .stuck io)
      split
      · exact stored.snoc (by simp)
      · exact stored.snoc (by simp)
    | _ => exact may.elim
  | tiocmget fd =>
    obtain ⟨ret, status⟩ := answer
    obtain ⟨io, rfl, rfl⟩ := may
    have stored : Stored begun now io := backed
    change Backed _ _ (if ret < 0 then .line io else .raising io status)
    split
    · exact stored.snoc (by simp)
    · exact stored.snoc (by simp)
  | tiocmset fd status =>
    cases kept with
    | raising io before =>
      have stored : Stored begun now io := backed
      change Backed _ _ (if (show Int from answer) < 0 then .line io else .raised io before)
      split
      · exact stored.snoc (by simp)
      · exact stored.snoc (by simp)
    | lowering io before =>
      have stored : Stored begun now io := backed
      exact stored.snoc (by simp)
    | _ => exact may.elim
  | usleep usec =>
    obtain ⟨rfl, io, status, rfl⟩ := may
    have stored : Stored begun now io := backed
    exact stored.snoc (by simp)
  | close fd =>
    obtain ⟨io, rfl, rfl⟩ := may
    have stored : Stored begun now io := backed
    exact stored.snoc (by simp)
  | exit code => exact may.elim
  | store held =>
    cases kept with
    | opening fd =>
      obtain ⟨untouched, path, opened⟩ := backed
      have still : Untouched (now ++ [⟨.store held, answer⟩]) := untouched.snoc (by simp) (by simp)
      change Backed _ _ (if fd = -1 then .failed else .opened fd)
      split
      · exact still
      next valid => exact ⟨still, valid, path, List.mem_append_left _ opened⟩
    | known io =>
      obtain rfl : held = io := may
      have told : Told now held := backed.2
      exact ⟨told.snoc, statics_store⟩
    | _ => exact may.elim
  | read fd | write fd ch =>
    obtain ⟨io, rfl, rfl⟩ := may
    have stored : Stored begun now io := backed
    exact stored.snoc (by simp)
  | fault | host => exact backed.keeps (by simp) (by simp) (by simp)

theorem Backed.run (backed : Backed begun now kept) (accepts : custody.Accepts kept later) :
    Backed begun (now ++ later) (custody.after kept later) := by
  induction later generalizing now kept with
  | nil => rwa [List.append_nil]
  | cons event later ih =>
    rw [List.append_cons]
    exact ih (backed.step accepts.1) accepts.2

/-- Once a signal has been asked for, the driver has stored all that it takes to give the port back. -/
theorem Backed.stored (backed : Backed begun now kept) {sig : Nat} (asked : (⟨.signal sig, ()⟩ : Event Sys) ∈ now) :
    Told now (statics begun now) := by
  have touched : ¬Untouched now := fun untouched => (untouched _ asked).2 sig rfl
  cases kept with
  | fresh | failed => exact absurd backed touched
  | opening | opened | terminal | known => exact absurd backed.1 touched
  | saved io | armed io | line io | adjusting io | raising io | raised io | lowering io | restored io | stuck io | closed io =>
    obtain ⟨told, same⟩ := backed
    rw [same]
    exact told

/-- The settings are restored and the port is closed, if it takes them; and the process ends as one does that was killed. -/
def Released (io : SerialIo) (sig : Nat) (done : History Sys) : Prop :=
  (∃ ret, done = [⟨.tcsetattr io.serialHandle io.tioInitial, (0 : Int)⟩, ⟨.close io.serialHandle, ret⟩, ⟨.exit (128 + sig), ()⟩]) ∨
    ∃ ret : Int, ret ≠ 0 ∧ done = [⟨.tcsetattr io.serialHandle io.tioInitial, ret⟩, ⟨.exit (128 + sig), ()⟩]

theorem signalHandler_ends (valid : io.serialHandle ≠ -1) (sig : Nat) :
    Ends (fun _ _ => True) (Released io sig) (fun _ _ => False) [] ((signalHandler sig).run io) := by
  have closes : Ends (fun _ _ => True) (Released io sig) (fun result now => now = [⟨.tcsetattr io.serialHandle io.tioInitial, (0 : Int)⟩,
        ⟨.close io.serialHandle, result.1⟩] ∨ ∃ ret : Int, ret ≠ 0 ∧ now = [⟨.tcsetattr io.serialHandle io.tioInitial, ret⟩])
      [] (serialIoClose.run io) := by
    change Ends _ _ _ _ (StateT.run (if io.serialHandle = -1 then _ else _) io)
    rw [if_neg valid]
    apply Ends.perform_seq
    intro (ret : Int) _
    by_cases done : ret = 0
    · rw [if_neg (not_not.mpr done), done]
      exact .call fun answer _ => .ret (.inl rfl)
    · rw [if_pos done]
      exact .ret (.inr ⟨ret, done, rfl⟩)
  rw [signalHandler]
  apply closes.seq
  intro ret held now done
  apply Ends.perform_seq
  intro _ _
  apply Ends.halt
  obtain rfl | ⟨ret, refused, rfl⟩ := done
  · exact .inl ⟨ret, rfl⟩
  · exact .inr ⟨ret, refused, rfl⟩

/-- Whenever a session is interrupted after it has asked for the signal, the driver gives the port back with the settings that
it had when it was opened: these are in its static variables, whatever it was doing. -/
theorem interrupt_restores (pageSize : Option Int) (root : QdaIf) (argv : List Opt) (qdaBuf : QdaBuf) (pktBuf : XmodemPacket)
    (io : SerialIo) : wp (fun now => (⟨.signal sigint, ()⟩ : Event Sys) ∈ now → Told now (statics io now) ∧
        Ends (fun _ _ => True) (Released (statics io now) sigint) (fun _ _ => False) [] (interrupt sigint io now))
      ((mainOnSerial pageSize root argv qdaBuf pktBuf).run io) (fun result now => result.2 = statics io now) [] := by
  have begins : Backed io [] .fresh := by simp [Backed, Untouched]
  apply (mainOnSerial_follows pageSize root argv qdaBuf pktBuf).mono
  · intro now accepts asked
    have told : Told now (statics io now) := (begins.run accepts).stored asked
    exact ⟨told, signalHandler_ends told.1 sigint⟩
  · intro result now accepts done
    have backed : Backed io now (custody.after .fresh now) := begins.run accepts
    obtain ⟨_, closed | stuck⟩ := done
    · rw [closed] at backed
      exact backed.2.symm
    · rw [stuck] at backed
      exact backed.2.symm

end Interrupts

end DfuUtilQda.Serial

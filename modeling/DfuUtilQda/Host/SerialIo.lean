import DfuUtilQda.Host.Line

/-! The serial driver of the POSIX build, down to the system calls it makes on the
descriptor of the port, and the program on top of it. -/

namespace DfuUtilQda.Serial
open Interaction Machine

def vtime : Nat := 5
def vmin : Nat := 6
def nccs : Nat := 32

def cs8 : UInt32 := 0o60
def cread : UInt32 := 0o200
def clocal : UInt32 := 0o4000

def cbaud : UInt32 := 0o10017
def ibaud0 : UInt32 := 0o20000000000

def tiocmRts : UInt32 := 0x004
def sigint : Nat := 2

/-- `struct termios`, with the two speeds beside the flags. -/
structure Termios where
  cIflag : UInt32
  cOflag : UInt32
  cCflag : UInt32
  cLflag : UInt32
  cCc : List UInt8
  cIspeed : UInt32
  cOspeed : UInt32
  size : cCc.length = nccs

namespace Termios

def zero : Termios := ⟨0, 0, 0, 0, List.replicate nccs 0, 0, 0, List.length_replicate⟩

def setCc (tio : Termios) (index : Nat) (value : UInt8) : Termios :=
  { tio with
    cCc := tio.cCc.set index value
    size := by rw [List.length_set, tio.size] }

/-- The flags have the speed as well; the driver only sets speeds that there are. -/
def cfsetospeed (tio : Termios) (speed : UInt32) : Termios :=
  { tio with
    cOspeed := speed
    cCflag := tio.cCflag &&& ~~~cbaud ||| speed }

def cfsetispeed (tio : Termios) (speed : UInt32) : Termios :=
  if speed = 0 then { tio with cIspeed := speed, cIflag := tio.cIflag ||| ibaud0 }
  else
    { tio with
      cIspeed := speed
      cIflag := tio.cIflag &&& ~~~ibaud0
      cCflag := tio.cCflag &&& ~~~cbaud ||| speed }

end Termios

/-- The static variables of the driver. -/
structure SerialIo where
  serialHandle : Int
  tioInitial : Termios

/-- The system calls of the driver, its stores to the static variables, and the calls of the host that do not
concern it. The flags of `open` and the time at which settings change are always the same. -/
inductive Op where
  | open (path : Option String)
  | isatty (fd : Int)
  | tcgetattr (fd : Int)
  | tcsetattr (fd : Int) (tio : Termios)
  | signal (sig : Nat)
  | tiocmget (fd : Int)
  | tiocmset (fd : Int) (status : UInt32)
  | usleep (usec : Nat)
  | read (fd : Int)
  | write (fd : Int) (ch : UInt8)
  | close (fd : Int)
  | exit (code : Nat)
  | store (io : SerialIo)
  | fault
  | host (op : Host.Op)

/-- What a call returns, and beside it what it stores if it succeeds. -/
@[reducible] def Answer : Op → Type
  | .open _ => Int
  | .isatty _ => Int
  | .tcgetattr _ => Int × Termios
  | .tcsetattr _ _ => Int
  | .tiocmget _ => Int × UInt32
  | .tiocmset _ _ => Int
  | .read _ => Int × UInt8
  | .write _ _ => Int
  | .close _ => Int
  | .host op => Host.Answer op
  | _ => Unit

abbrev Sys : Signature := ⟨Op, Answer⟩

abbrev Code := Static SerialIo Sys

def perform (op : Op) : Code (Answer op) := Static.perform (S := Sys) op

/-- An assignment to the static variables. It can be seen, as a signal handler that runs next reads them. -/
def assign (change : SerialIo → SerialIo) : Code Unit := do
  let io ← get
  set (change io)
  perform (.store (change io))

def etimedout : Int := 110
def eio : Int := 5

def xmodemPutc (ch : UInt8) : Code Unit := do
  let io ← get
  let _ ← perform (.write io.serialHandle ch)

/-- The byte that has come, or the negative error code. -/
def xmodemGetc : Code (Except Int UInt8) := do
  let io ← get
  let (retv, ch) ← perform (.read io.serialHandle)
  if retv = 1 then return .ok ch
  else if retv = 0 then return .error (-etimedout)
  else return .error (-eio)

def xmodemSetTimeout (ms : Int) : Code Int := do
  let io ← get
  let (ret, tio) ← perform (.tcgetattr io.serialHandle)
  if ret < 0 then return -1
  else perform (.tcsetattr io.serialHandle (tio.setCc vtime (UInt8.ofInt (ms.tdiv 100))))

/-- 8n1 without any processing; a read waits for three seconds. -/
def lineTermios : Termios :=
  let tio := { Termios.zero with cIflag := 0, cOflag := 0, cCflag := cs8 ||| cread ||| clocal, cLflag := 0 }
  (tio.setCc vmin 0).setCc vtime 30

/-- The speeds that can be asked for, as `speed_t` has them. -/
def serialSpeed (speed : Int) : Option UInt32 :=
  if speed = 1200 then some 0o11
  else if speed = 2400 then some 0o13
  else if speed = 4800 then some 0o14
  else if speed = 9600 then some 0o15
  else if speed = 19200 then some 0o16
  else if speed = 38400 then some 0o17
  else if speed = 57600 then some 0o10001
  else if speed = 115200 then some 0o10002
  else none

def serialIoOpen (path : Option String) (speed : Int) : Code Int := do
  let handle ← perform (.open path)
  assign fun io => { io with serialHandle := handle }
  if handle = -1 then return -1
  else if (← perform (.isatty handle)) ≠ 1 then return -1
  else
    let (ret, tio) ← perform (.tcgetattr handle)
    if ret ≠ 0 then return -1
    else
      assign fun io => { io with tioInitial := tio }
      perform (.signal sigint)
      match serialSpeed speed with
      | none => return -1
      | some speed =>
        if (← perform (.tcsetattr handle ((lineTermios.cfsetospeed speed).cfsetispeed speed))) < 0 then return -1
        else return handle

/-- Pulls RTS for a tenth of a second. -/
def serialDetach : Code Int := do
  let io ← get
  let (ret, status) ← perform (.tiocmget io.serialHandle)
  if ret < 0 then return ret
  else
    let status := status ||| tiocmRts
    let ret ← perform (.tiocmset io.serialHandle status)
    if ret < 0 then return ret
    else
      perform (.usleep 100000)
      let status := status &&& ~~~tiocmRts
      perform (.tiocmset io.serialHandle status)

def serialIoClose : Code Int := do
  let io ← get
  if io.serialHandle = -1 then return -1
  else if (← perform (.tcsetattr io.serialHandle io.tioInitial)) ≠ 0 then return -1
  else perform (.close io.serialHandle)

/-- What the process does when it is sent a signal that it has asked for. -/
def signalHandler (sig : Nat) : Code Empty := do
  let _ ← serialIoClose
  perform (.exit (128 + sig))
  Static.halt

/-- The static variables at a moment of an execution that has begun with `io`. -/
def statics (io : SerialIo) (now : History Sys) : SerialIo :=
  now.foldl (fun held event => match event.op with
    | .store kept => kept
    | _ => held) io

/-- What is executed when a signal comes at that moment. -/
def interrupt (sig : Nat) (io : SerialIo) (now : History Sys) : Program Sys (Empty × SerialIo) := (signalHandler sig).run (statics io now)

/-- The operations of the transport and the three calls of `main` are the driver's. -/
def driver : Handler Host.Port SerialIo Sys
  | .inl .getc => do return (← xmodemGetc).toOption
  | .inl (.putc ch) => xmodemPutc ch
  | .inl (.setTimeout ms) => do let _ ← xmodemSetTimeout ms
  | .inl .fault => perform .fault
  | .inr (.serialIoOpen path speed) => serialIoOpen path speed
  | .inr .serialDetach => serialDetach
  | .inr .serialIoClose => do let _ ← serialIoClose
  | .inr op => perform (.host op)

end DfuUtilQda.Serial

namespace DfuUtilQda.Dfu
open Interaction Qda Host Xmodem Serial

/-- `main` down to the system calls on the port. -/
def mainOnSerial (pageSize : Option Int) (root : QdaIf) (argv : List Opt) (qdaBuf : QdaBuf) (pktBuf : XmodemPacket) :
    Static SerialIo Sys ((Int × QdaBuf) × XmodemPacket) := ((mainOnLine pageSize root argv qdaBuf).run pktBuf).handle driver

end DfuUtilQda.Dfu

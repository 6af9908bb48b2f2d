import EBusFsm.Machine.Io
import EBusFsm.Lib.Run

/-!
# The device and the system calls

`Device.cpp` on the system calls that it makes: the descriptor in `m_fd`, the settings that it saves and
restores, and what each call of the system may answer (`Replies`). The terminal behind the path of the device
keeps its settings while the object lives, unless the object changes them.

`session_exact` connects it with the device of the state handlers: a session is what a handler does with the
device, and the sessions over the system calls have exactly the outcomes that the environments of the handlers
give. `descriptors_accounted` says what the object does with its descriptors over any sequence of calls: it
touches no descriptor that is not open, and every attempt to open what is not a terminal leaves a descriptor
behind for ever, because only a device that is open is closed.

The code does not look at the results of `tcgetattr`, `tcsetattr`, `tcflush`, `fcntl` and `close`. The first two
and the last may fail here: then `m_oldSettings`, the settings of the terminal and the descriptor stay as they
were. So the terminal has its own settings back whenever the device is closed only as long as none of the calls
for the settings failed. The argument of `fcntl` is left out, no state depends on it.
-/

namespace EBusFsm

open Prog

/-! ### The terminal -/

structure Termios where
  iflag : BitVec 32 := 0
  oflag : BitVec 32 := 0
  cflag : BitVec 32 := 0
  lflag : BitVec 32 := 0
  cc : List Byte := List.replicate 32 0
  deriving DecidableEq, Repr

def B2400 : BitVec 32 := 0o13
def CS8 : BitVec 32 := 0o60
def CREAD : BitVec 32 := 0o200
def CLOCAL : BitVec 32 := 0o4000
def ICANON : BitVec 32 := 0o2
def ECHO : BitVec 32 := 0o10
def ECHOE : BitVec 32 := 0o20
def ISIG : BitVec 32 := 0o1
def IGNPAR : BitVec 32 := 0o4
def OPOST : BitVec 32 := 0o1
def VTIME : Nat := 5
def VMIN : Nat := 6

/-- The settings of the device while it is open. -/
def newSettings : Termios :=
  let s : Termios := {}
  { s with
    cflag := s.cflag ||| (B2400 ||| CS8 ||| CLOCAL ||| CREAD)
    lflag := s.lflag &&& ~~~(ICANON ||| ECHO ||| ECHOE ||| ISIG)
    iflag := s.iflag ||| IGNPAR
    oflag := s.oflag &&& ~~~OPOST
    cc := (s.cc.set VMIN 1).set VTIME 0 }

/-- What the system answers to the calls that one method makes. -/
structure Replies where
  /-- Of `open`. -/
  fd : Int
  isatty : Int
  tcgetattr : Int
  tcsetattr : Int
  ioctl : Int
  ppoll : Int
  read : Int
  /-- What `read` reads. -/
  byte : Byte
  write : Int
  /-- One byte is written, or there is an error. -/
  write_answer : write = -1 ∨ 0 < write
  /-- Whether `read` does not return. -/
  blocks : Bool
  /-- Whether `close` gives the descriptor back. -/
  released : Bool
  deriving DecidableEq, Repr

/-- The members of `Device`, without the prefix `m_`. -/
structure Device where
  oldSettings : Termios := {}
  fd : Int := -1
  isOpen : Bool := false
  deriving DecidableEq, Repr

/-- A device with the descriptors that it opened and did not close, and with its terminal. -/
structure Tty where
  device : Device := {}
  descriptors : List Int := []
  settings : Termios
  written : List Byte := []
  /-- The descriptors that calls were made on, with whether they were open. -/
  touched : List (Int × Bool) := []
  deriving DecidableEq, Repr

abbrev TtyM := Prog Stop Tty

def getDevice : TtyM Device := do return (← get).device

def modifyDevice (f : Device → Device) : TtyM PUnit := modify fun t => { t with device := f t.device }

/-! ### System calls -/

/-- A call on a descriptor. -/
def touch (fd : Int) : TtyM PUnit :=
  modify fun t => { t with touched := t.touched ++ [(fd, decide (fd ∈ t.descriptors))] }

def sysOpen (fd : Int) : TtyM PUnit :=
  modify fun t => { t with descriptors := if 0 ≤ fd then fd :: t.descriptors else t.descriptors }

def sysClose (fd : Int) (released : Bool) : TtyM PUnit := do
  touch fd
  modify fun t => { t with descriptors := if released then t.descriptors.erase fd else t.descriptors }

def sysWrite (fd : Int) (ret : Int) (byte : Byte) : TtyM PUnit := do
  touch fd
  modify fun t => { t with written := if 0 < ret then t.written ++ [byte] else t.written }

/-- What is in `old` behind the call. -/
def tcgetattr (fd : Int) (ret : Int) (old : Termios) : TtyM Termios := do
  touch fd
  let t ← get
  return if ret = -1 then old else t.settings

def tcsetattr (fd : Int) (ret : Int) (settings : Termios) : TtyM PUnit := do
  touch fd
  modify fun t => { t with settings := if ret = -1 then t.settings else settings }

/-! ### The methods -/

def Device.open (a : Replies) : TtyM PUnit := do
  if !(← getDevice).isOpen then
    modifyDevice fun device => { device with isOpen := false }
    sysOpen a.fd
    modifyDevice fun device => { device with fd := a.fd }
    if a.fd < 0 then throw .error
    touch a.fd
    if a.isatty = 0 then throw .error
    let oldSettings ← tcgetattr a.fd a.tcgetattr (← getDevice).oldSettings
    modifyDevice fun device => { device with oldSettings }
    -- `tcflush`
    touch a.fd
    tcsetattr a.fd a.tcsetattr newSettings
    -- `fcntl`, twice
    touch a.fd
    touch a.fd
    modifyDevice fun device => { device with isOpen := true }

/-- The destructor calls it as well. -/
def Device.close (a : Replies) : TtyM PUnit := do
  let device ← getDevice
  if device.isOpen then
    -- `tcflush`
    touch device.fd
    tcsetattr device.fd a.tcsetattr device.oldSettings
    sysClose device.fd a.released
    modifyDevice fun device => { device with fd := -1, isOpen := false }

def Device.isValid (a : Replies) : TtyM Bool := do
  touch (← getDevice).fd
  if a.ioctl = -1 then
    close a
    throw .error
  return true

def Device.send (a : Replies) (byte : Byte) : TtyM PUnit := do
  let _ ← isValid a
  sysWrite (← getDevice).fd a.write byte
  if a.write = -1 then throw .error

/-- The end of `recv`, where it reads. -/
def Device.readByte (a : Replies) : TtyM Byte := do
  touch (← getDevice).fd
  if a.blocks then throw .starved
  if a.read < 0 then throw .error
  if a.read = 0 then throw .warning
  return a.byte

def Device.recv (a : Replies) (sec nsec : Nat) : TtyM Byte := do
  let _ ← isValid a
  if sec > 0 ∨ nsec > 0 then
    touch (← getDevice).fd
    if a.ppoll = -1 then throw .error
    if a.ppoll = 0 then throw .warning
  readByte a

/-! ### Sessions -/

/-- Whatever uses the device with `close`, `send` and `recv`: the bytes that it reads tell it how to go on,
and it ends with the first exception. -/
inductive Client (α : Type)
  | done (a : α)
  | close (rest : Client α)
  | send (byte : Byte) (rest : Client α)
  | recv (sec nsec : Nat) (rest : Byte → Client α)

namespace Client

variable {α : Type}

/-- Over the device of the state handlers. -/
def handle : Client α → EbusM α
  | done a => pure a
  | close rest => do
    deviceClose
    rest.handle
  | send byte rest => do
    deviceSend byte
    rest.handle
  | recv sec nsec rest => do
    let byte ← deviceRecv sec nsec
    (rest byte).handle

/-- Over the system calls, with the answers to each call. -/
def perform : Client α → (Nat → Replies) → TtyM α
  | done a, _ => pure a
  | close rest, as => do
    Device.close (as 0)
    rest.perform fun n => as (n + 1)
  | send byte rest, as => do
    Device.send (as 0) byte
    rest.perform fun n => as (n + 1)
  | recv sec nsec rest, as => do
    let byte ← Device.recv (as 0) sec nsec
    (rest byte).perform fun n => as (n + 1)

end Client

/-- What one handler does with the device: it may open it, but only before everything else. -/
structure Session (α : Type) where
  opens : Bool
  client : Client α

namespace Session

variable {α : Type}

def handle (s : Session α) : EbusM α := do
  if s.opens then deviceOpen
  s.client.handle

def perform (s : Session α) (a : Replies) (as : Nat → Replies) : TtyM α := do
  if s.opens then Device.open a
  s.client.perform as

end Session

/-! ### One call -/

namespace Tty

/-- Behind a call on a descriptor. -/
def touch (t : Tty) (fd : Int) : Tty :=
  { t with touched := t.touched ++ [(fd, decide (fd ∈ t.descriptors))] }

/-- Behind `Device::close`. -/
def closed (t : Tty) (a : Replies) : Tty := (exec (Device.close a) t).2

/-- The world of the state handlers over a terminal. -/
def world (t : Tty) (impl : EbusImpl) (events : List Event) (env : Env) : World where
  impl := { impl with deviceOpen := t.device.isOpen }
  env
  events := events ++ t.written.map .wrote

@[simp] theorem world_touch (t : Tty) (fd : Int) (impl : EbusImpl) (events : List Event) (env : Env) :
    (t.touch fd).world impl events env = t.world impl events env := rfl

@[simp] theorem touch_device (t : Tty) (fd : Int) : (t.touch fd).device = t.device := rfl

@[simp] theorem touch_written (t : Tty) (fd : Int) : (t.touch fd).written = t.written := rfl

end Tty

@[simp] theorem exec_getDevice (t : Tty) : exec getDevice t = (.ok t.device, t) := rfl

@[simp] theorem exec_modifyDevice (f : Device → Device) (t : Tty) :
    exec (modifyDevice f) t = (.ok ⟨⟩, { t with device := f t.device }) := rfl

@[simp] theorem exec_touch (fd : Int) (t : Tty) : exec (touch fd) t = (.ok ⟨⟩, t.touch fd) := rfl

@[simp] theorem exec_deviceClose (w : World) :
    exec deviceClose w = (.ok ⟨⟩, { w with impl := { w.impl with deviceOpen := false } }) := rfl

theorem exec_close (a : Replies) (t : Tty) : exec (Device.close a) t = (.ok ⟨⟩, t.closed a) := by
  rcases t with ⟨⟨settings, fd, _ | _⟩, descriptors, settings', written, touched⟩ <;> rfl

theorem Tty.closed_isOpen (t : Tty) (a : Replies) : (t.closed a).device.isOpen = false := by
  rcases t with ⟨⟨settings, fd, _ | _⟩, descriptors, settings', written, touched⟩ <;> rfl

theorem world_closed (t : Tty) (a : Replies) (impl : EbusImpl) (events : List Event) (env : Env) :
    (t.closed a).world impl events env = (exec deviceClose (t.world impl events env)).2 := by
  rcases t with ⟨⟨settings, fd, _ | _⟩, descriptors, settings', written, touched⟩ <;> rfl

theorem exec_isValid (a : Replies) (t : Tty) :
    exec (Device.isValid a) t =
      if a.ioctl = -1 then (.error .error, (t.touch t.device.fd).closed a)
      else (.ok true, t.touch t.device.fd) := by
  unfold Device.isValid
  rw [exec_bind_ok (exec_getDevice t), exec_bind_ok (exec_touch t.device.fd t)]
  split_ifs with h
  · exact exec_bind_ok (exec_close a _)
  · rfl

/-! ### Sessions over the system calls -/

/-- What `deviceRecv` makes of the next answer: without a timeout it does not call `ppoll`. -/
def received (sec nsec : Nat) (result : Option RecvResult) : Option RecvResult :=
  if sec > 0 ∨ nsec > 0 then result else result.filter fun r => r ≠ .pollError ∧ r ≠ .timeout

/-- How `recv` ends. -/
def outcome : Option RecvResult → Except Stop Byte
  | none => .error .starved
  | some (.byte byte) => .ok byte
  | some .invalid | some .pollError | some .readError => .error .error
  | some .timeout | some .eof => .error .warning

namespace Replies

/-- What the environment of the state handlers says when the system answers so to `read`; nothing if it does not
return. -/
def readResult (a : Replies) : Option RecvResult :=
  if a.blocks then none
  else if a.read < 0 then some .readError
  else if a.read = 0 then some .eof
  else some (.byte a.byte)

/-- The same for `recv`. -/
def recvResult (a : Replies) (sec nsec : Nat) : Option RecvResult :=
  if a.ioctl = -1 then some .invalid
  else if (sec > 0 ∨ nsec > 0) ∧ a.ppoll = -1 then some .pollError
  else if (sec > 0 ∨ nsec > 0) ∧ a.ppoll = 0 then some .timeout
  else a.readResult

def sendResult (a : Replies) : SendResult :=
  if a.ioctl = -1 then .invalid else if a.write = -1 then .fail else .ok

def opens (a : Replies) : Bool := decide (0 ≤ a.fd ∧ a.isatty ≠ 0)

/-- A system that answers without errors. -/
def good : Replies where
  fd := 3
  isatty := 1
  tcgetattr := 0
  tcsetattr := 0
  ioctl := 0
  ppoll := 1
  read := 1
  byte := 0
  write := 1
  write_answer := .inr Int.one_pos
  blocks := false
  released := true

/-- A system behind an environment. -/
def ofRecv : Option RecvResult → Replies
  | none => { good with blocks := true }
  | some (.byte byte) => { good with byte }
  | some .invalid => { good with ioctl := -1 }
  | some .pollError => { good with ppoll := -1, blocks := true }
  | some .timeout => { good with ppoll := 0, blocks := true }
  | some .readError => { good with read := -1 }
  | some .eof => { good with read := 0 }

def ofSend : SendResult → Replies
  | .ok => good
  | .invalid => { good with ioctl := -1 }
  | .fail => { good with write := -1, write_answer := .inl rfl }

theorem recvResult_ofRecv (r : Option RecvResult) (sec nsec : Nat) :
    (ofRecv r).recvResult sec nsec = received sec nsec r := by
  unfold received
  rcases r with _ | r
  · by_cases h : sec > 0 ∨ nsec > 0 <;> simp [recvResult, readResult, ofRecv, good]
  · by_cases h : sec > 0 ∨ nsec > 0 <;> cases r <;> simp [recvResult, readResult, ofRecv, good, h, Option.filter]

theorem received_recvResult (a : Replies) (sec nsec : Nat) :
    received sec nsec (a.recvResult sec nsec) = a.recvResult sec nsec := by
  unfold received recvResult readResult
  grind

theorem sendResult_ofSend (r : SendResult) : (ofSend r).sendResult = r := by cases r <;> rfl

end Replies

/-- What an answer leaves of the members of the machine. -/
def afterRecv (result : Option RecvResult) (impl : EbusImpl) : EbusImpl :=
  if result = some .invalid then { impl with deviceOpen := false } else impl

theorem exec_deviceRecv (sec nsec : Nat) (w : World) :
    exec (deviceRecv sec nsec) w =
      (outcome (received sec nsec w.env.reads.head?),
        { w with
          impl := afterRecv (received sec nsec w.env.reads.head?) w.impl
          env := { w.env with reads := w.env.reads.tail } }) := by
  rcases w with ⟨impl, ⟨_ | ⟨r, reads⟩, sends, opens, reaction, response⟩, events⟩
  · by_cases h : sec > 0 ∨ nsec > 0 <;> simp [received, afterRecv, h, outcome] <;> rfl
  · unfold received
    split_ifs with h <;> cases r <;>
      simp [deviceRecv, exec_bind, h, afterRecv, outcome, Option.filter, -bind_pure_comp]

theorem exec_readByte (a : Replies) (t : Tty) :
    exec (Device.readByte a) t = (outcome a.readResult, t.touch t.device.fd) := by
  unfold Device.readByte Replies.readResult
  rw [exec_bind_ok (exec_getDevice t), exec_bind_ok (exec_touch t.device.fd t)]
  split_ifs <;> rfl

theorem readResult_ne (a : Replies) : a.readResult ≠ some .invalid := by
  unfold Replies.readResult
  split_ifs <;> simp

theorem exec_recv (a : Replies) (sec nsec : Nat) (t : Tty) :
    ∃ t', exec (Device.recv a sec nsec) t = (outcome (a.recvResult sec nsec), t') ∧
      ∀ impl events env, t'.world impl events env =
        { t.world impl events env with
          impl := afterRecv (a.recvResult sec nsec) (t.world impl events env).impl } := by
  unfold Device.recv Replies.recvResult
  by_cases hvalid : a.ioctl = -1
  · rw [if_pos hvalid]
    exact ⟨_, exec_bind_error ((exec_isValid a t).trans (if_pos hvalid)), fun impl events env =>
      world_closed _ a impl events env⟩
  rw [exec_bind_ok ((exec_isValid a t).trans (if_neg hvalid)), if_neg hvalid]
  have hread : afterRecv a.readResult = id := funext fun impl => if_neg (readResult_ne a)
  by_cases hpoll : sec > 0 ∨ nsec > 0
  · by_cases herror : a.ppoll = -1
    · simp [exec_bind, hpoll, herror, outcome, afterRecv]
    · by_cases htimeout : a.ppoll = 0
      · simp [exec_bind, hpoll, htimeout, outcome, afterRecv]
      · simp [exec_bind, hpoll, herror, htimeout, exec_readByte, hread]
  · simp [hpoll, exec_readByte, hread]

section World

variable (impl : EbusImpl) (events : List Event)

theorem open_world {a : Replies} {env : Env} (t : Tty) (h : env.opens = a.opens) :
    exec deviceOpen (t.world impl events env) =
      ((exec (Device.open a) t).1, (exec (Device.open a) t).2.world impl events env) := by
  rcases t with ⟨⟨settings, fd, _ | _⟩, descriptors, settings', written, touched⟩
  · unfold Replies.opens at h
    by_cases hfd : a.fd < 0
    · rw [decide_eq_false (by omega)] at h
      simp [deviceOpen, Device.open, exec_bind, getImpl, Tty.world, h, hfd, sysOpen]
    · by_cases htty : a.isatty = 0
      · rw [decide_eq_false (by omega)] at h
        simp [deviceOpen, Device.open, exec_bind, getImpl, Tty.world, h, hfd, htty, sysOpen, Tty.touch]
      · rw [decide_eq_true (by omega)] at h
        simp [deviceOpen, Device.open, exec_bind, getImpl, Tty.world, h, hfd, htty, sysOpen, Tty.touch,
          tcgetattr, tcsetattr, modifyImpl]
  · rfl

theorem send_world {a : Replies} {env : Env} (t : Tty) (byte : Byte)
    (h : env.sends.headD .ok = a.sendResult) :
    exec (deviceSend byte) (t.world impl events env) =
      ((exec (Device.send a byte) t).1,
        (exec (Device.send a byte) t).2.world impl events { env with sends := env.sends.tail }) := by
  rw [List.headD_eq_head?_getD, Replies.sendResult] at h
  unfold Device.send deviceSend
  by_cases hvalid : a.ioctl = -1
  · rw [exec_bind_error ((exec_isValid a t).trans (if_pos hvalid)), world_closed]
    rw [if_pos hvalid] at h
    simp [exec_bind, Tty.world, h]
  · rw [exec_bind_ok ((exec_isValid a t).trans (if_neg hvalid))]
    rw [if_neg hvalid] at h
    by_cases hwrite : a.write = -1
    · rw [if_pos hwrite] at h
      simp [exec_bind, Tty.world, h, hwrite, sysWrite, Tty.touch]
    · rw [if_neg hwrite] at h
      have hpos := a.write_answer.resolve_left hwrite
      simp [exec_bind, Tty.world, h, hwrite, hpos, sysWrite, Tty.touch, emit]

theorem recv_world {a : Replies} {env : Env} (t : Tty) (sec nsec : Nat)
    (h : received sec nsec env.reads.head? = a.recvResult sec nsec) :
    exec (deviceRecv sec nsec) (t.world impl events env) =
      ((exec (Device.recv a sec nsec) t).1,
        (exec (Device.recv a sec nsec) t).2.world impl events { env with reads := env.reads.tail }) := by
  obtain ⟨t', hexec, hworld⟩ := exec_recv a sec nsec t
  rw [exec_deviceRecv, hexec, hworld]
  show (outcome (received sec nsec env.reads.head?), _) = _
  simp only [Tty.world, h]

end World

/-- The two sides end in the same way and leave the same. -/
def SameEnd {α : Type} (impl : EbusImpl) (events : List Event) (x : Except Stop α × World)
    (y : Except Stop α × Tty) : Prop :=
  x.1 = y.1 ∧ ∃ env, x.2 = y.2.world impl events env

section SameEnd

variable {α β : Type} {impl : EbusImpl} {events : List Event}

theorem SameEnd.of_eq {x : Except Stop α × World} {y : Except Stop α × Tty} {env : Env}
    (h : x = (y.1, y.2.world impl events env)) : SameEnd impl events x y := by
  subst h
  exact ⟨rfl, env, rfl⟩

theorem SameEnd.bind {x : EbusM α} {y : TtyM α} {f : α → EbusM β} {g : α → TtyM β} {w : World} {t : Tty}
    {env : Env} (hxy : exec x w = ((exec y t).1, (exec y t).2.world impl events env))
    (hfg : ∀ a t', exec y t = (.ok a, t') →
      SameEnd impl events (exec (f a) (t'.world impl events env)) (exec (g a) t')) :
    SameEnd impl events (exec (x >>= f) w) (exec (y >>= g) t) := by
  rcases hy : exec y t with ⟨e | a, t'⟩
  · rw [hy] at hxy
    rw [exec_bind_error hxy, exec_bind_error hy]
    exact .of_eq rfl
  · rw [hy] at hxy
    rw [exec_bind_ok hxy, exec_bind_ok hy]
    exact hfg a t' hy

end SameEnd

theorem close_world (impl : EbusImpl) (events : List Event) (a : Replies) (t : Tty) (env : Env) :
    exec deviceClose (t.world impl events env) =
      ((exec (Device.close a) t).1, (exec (Device.close a) t).2.world impl events env) := by
  rw [exec_close, world_closed]
  rfl

theorem outcome_ok {r : Option RecvResult} {byte : Byte} (h : outcome r = .ok byte) : r = some (.byte byte) := by
  rcases r with _ | _ | _ | _ | _ | _ | _ <;> cases h
  rfl

namespace Client

variable {α : Type} (impl : EbusImpl) (events : List Event)

/-- Whatever the system answers, some environment does the same to a client. -/
theorem exists_env (c : Client α) (as : Nat → Replies) (t : Tty) (env : Env) :
    ∃ reads sends, SameEnd impl events (exec c.handle (t.world impl events { env with reads, sends }))
      (exec (c.perform as) t) := by
  induction c generalizing as t with
  | done a => exact ⟨[], [], .of_eq rfl⟩
  | close rest ih =>
    obtain ⟨reads, sends, h⟩ := ih (fun n => as (n + 1)) (t.closed (as 0))
    refine ⟨reads, sends, .bind (close_world impl events (as 0) t _) fun _ t' ht => ?_⟩
    cases (exec_close (as 0) t).symm.trans ht
    exact h
  | send byte rest ih =>
    rcases hy : exec (Device.send (as 0) byte) t with ⟨e | _, t'⟩
    · refine ⟨[], [(as 0).sendResult], .bind (send_world impl events t byte rfl) fun _ _ ht => ?_⟩
      cases hy.symm.trans ht
    · obtain ⟨reads, sends, h⟩ := ih (fun n => as (n + 1)) t'
      refine ⟨reads, (as 0).sendResult :: sends, .bind (send_world impl events t byte rfl) fun _ _ ht => ?_⟩
      cases hy.symm.trans ht
      exact h
  | recv sec nsec rest ih =>
    obtain ⟨t₁, hexec, -⟩ := exec_recv (as 0) sec nsec t
    have hresult := (as 0).received_recvResult sec nsec
    rcases hy : exec (Device.recv (as 0) sec nsec) t with ⟨e | byte, t'⟩
    · refine ⟨((as 0).recvResult sec nsec).toList, [],
        .bind (recv_world impl events t sec nsec ?_) fun _ _ ht => ?_⟩
      · rw [Option.head?_toList]
        exact hresult
      · cases hy.symm.trans ht
    · have hbyte := outcome_ok (congrArg Prod.fst (hexec.symm.trans hy))
      obtain ⟨reads, sends, h⟩ := ih byte (fun n => as (n + 1)) t'
      refine ⟨.byte byte :: reads, sends, .bind (recv_world impl events t sec nsec ?_) fun _ _ ht => ?_⟩
      · rw [List.head?_cons, ← hbyte]
        exact hresult
      · cases hy.symm.trans ht
        exact h

/-- Whatever the environment is, some answers of the system do the same to a client. -/
theorem exists_replies (c : Client α) (t : Tty) (env : Env) :
    ∃ as, SameEnd impl events (exec c.handle (t.world impl events env)) (exec (c.perform as) t) := by
  induction c generalizing t env with
  | done a => exact ⟨fun _ => .good, .of_eq rfl⟩
  | close rest ih =>
    obtain ⟨as, h⟩ := ih (t.closed .good) env
    refine ⟨fun n => n.casesOn .good as, ?_⟩
    refine SameEnd.bind (close_world impl events .good t env) fun _ t' ht => ?_
    cases (exec_close .good t).symm.trans ht
    exact h
  | send byte rest ih =>
    let a := Replies.ofSend (env.sends.headD .ok)
    obtain ⟨as, h⟩ := ih (exec (Device.send a byte) t).2 { env with sends := env.sends.tail }
    refine ⟨fun n => n.casesOn a as,
      .bind (send_world impl events t byte (Replies.sendResult_ofSend _).symm) fun _ t' ht => ?_⟩
    rw [show exec (Device.send a byte) t = _ from ht] at h
    exact h
  | recv sec nsec rest ih =>
    let a := Replies.ofRecv env.reads.head?
    have hresult := (Replies.recvResult_ofRecv env.reads.head? sec nsec).symm
    rcases hy : exec (Device.recv a sec nsec) t with ⟨e | byte, t'⟩
    · refine ⟨fun _ => a, .bind (recv_world impl events t sec nsec hresult) fun _ _ ht => ?_⟩
      cases hy.symm.trans ht
    · obtain ⟨as, h⟩ := ih byte t' { env with reads := env.reads.tail }
      refine ⟨fun n => n.casesOn a as, .bind (recv_world impl events t sec nsec hresult) fun _ _ ht => ?_⟩
      cases hy.symm.trans ht
      exact h

end Client

/-- A system that answers to `open` as an environment says. -/
def Replies.ofOpens (opens : Bool) : Replies := { Replies.good with isatty := if opens then 1 else 0 }

theorem Replies.opens_ofOpens (opens : Bool) : (ofOpens opens).opens = opens := by cases opens <;> rfl

/-- A session over the system calls has exactly the outcomes that the environments of the state handlers give. -/
theorem session_exact {α : Type} (s : Session α) (impl : EbusImpl) (events : List Event) (t : Tty) :
    (∀ a as, ∃ env, SameEnd impl events (exec s.handle (t.world impl events env)) (exec (s.perform a as) t)) ∧
      ∀ env, ∃ a as, SameEnd impl events (exec s.handle (t.world impl events env)) (exec (s.perform a as) t) := by
  obtain ⟨opens, client⟩ := s
  constructor
  · intro a as
    cases opens
    · obtain ⟨reads, sends, h⟩ := client.exists_env impl events as t {}
      exact ⟨_, h⟩
    · obtain ⟨reads, sends, h⟩ := client.exists_env impl events as (exec (Device.open a) t).2 { opens := a.opens }
      refine ⟨{ reads, sends, opens := a.opens }, SameEnd.bind (open_world impl events t rfl) fun _ t' ht => ?_⟩
      rw [ht] at h
      exact h
  · intro env
    cases opens
    · obtain ⟨as, h⟩ := client.exists_replies impl events t env
      exact ⟨.good, as, h⟩
    · let a := Replies.ofOpens env.opens
      obtain ⟨as, h⟩ := client.exists_replies impl events (exec (Device.open a) t).2 env
      refine ⟨a, as, SameEnd.bind (open_world impl events t (Replies.opens_ofOpens _).symm) fun _ t' ht => ?_⟩
      rw [show exec (Device.open a) t = _ from ht] at h
      exact h

/-! ### Descriptors -/

inductive DeviceCall
  | open
  | close
  | send (byte : Byte)
  | recv (sec nsec : Nat)
  deriving DecidableEq, Repr

namespace DeviceCall

def perform (a : Replies) : DeviceCall → TtyM PUnit
  | .open => Device.open a
  | .close => Device.close a
  | .send byte => Device.send a byte
  | .recv sec nsec => do let _ ← Device.recv a sec nsec

/-- Behind a call, also if it ended with an exception. -/
def after (t : Tty) (c : DeviceCall × Replies) : Tty := (exec (c.1.perform c.2) t).2

/-- Whether a call closes a device that is open: `isValid` does it when `ioctl` fails. -/
def closes (a : Replies) : DeviceCall → Bool
  | .open => false
  | .close => true
  | .send _ | .recv _ _ => decide (a.ioctl = -1)

theorem closes_close (a : Replies) : closes a .close = true := rfl

/-- What a call leaves behind: `open` gives up a descriptor of something that is not a terminal, and everything
else the descriptor that `::close` does not give back. -/
def leak (t : Tty) (c : DeviceCall × Replies) : List Int :=
  if c.1 = .open ∧ t.device.isOpen = false ∧ 0 ≤ c.2.fd ∧ c.2.isatty = 0 then [c.2.fd]
  else if c.1.closes c.2 ∧ t.device.isOpen = true ∧ c.2.released = false then [t.device.fd]
  else []

/-- What the calls left behind, the last first. -/
def leaks : Tty → List (DeviceCall × Replies) → List Int
  | _, [] => []
  | t, c :: cs => leaks (after t c) cs ++ leak t c

theorem leaks_append (cs ds : List (DeviceCall × Replies)) (t : Tty) :
    leaks t (cs ++ ds) = leaks (cs.foldl after t) ds ++ leaks t cs := by
  induction cs generalizing t with
  | nil => exact (List.append_nil _).symm
  | cons c cs ih =>
    show leaks (after t c) (cs ++ ds) ++ leak t c = _ ++ (leaks (after t c) cs ++ leak t c)
    rw [ih, List.append_assoc]
    rfl

end DeviceCall

/-! ### Opening and closing -/

/-- Behind `n` calls on the descriptor of the object. -/
def Tty.touches (t : Tty) : Nat → Tty
  | 0 => t
  | n + 1 => (t.touches n).touch (t.touches n).device.fd

/-- Behind the call of `open` that got a descriptor. -/
def Tty.got (t : Tty) (fd : Int) : Tty :=
  { t with descriptors := fd :: t.descriptors, device := { t.device with isOpen := false, fd } }

section Opening

variable {a : Replies} {t : Tty}

theorem exec_open_open (h : t.device.isOpen = true) : exec (Device.open a) t = (.ok ⟨⟩, t) := by
  unfold Device.open
  rw [exec_bind_ok (exec_getDevice t), h]
  rfl

theorem exec_open_failed (h : t.device.isOpen = false) (hfd : a.fd < 0) :
    exec (Device.open a) t = (.error .error, { t with device := { t.device with isOpen := false, fd := a.fd } }) := by
  unfold Device.open sysOpen
  rw [exec_bind_ok (exec_getDevice t), h]
  simp only [if_pos hfd, if_neg (not_le.2 hfd)]
  rfl

theorem exec_open_other (h : t.device.isOpen = false) (hfd : ¬ a.fd < 0) (htty : a.isatty = 0) :
    exec (Device.open a) t = (.error .error, (t.got a.fd).touch a.fd) := by
  unfold Device.open sysOpen
  rw [exec_bind_ok (exec_getDevice t), h]
  simp only [if_neg hfd, if_pos (not_lt.1 hfd), if_pos htty]
  rfl

theorem exec_open_tty (h : t.device.isOpen = false) (hfd : ¬ a.fd < 0) (htty : ¬ a.isatty = 0) :
    exec (Device.open a) t =
      (.ok ⟨⟩,
        { (t.got a.fd).touches 6 with
          settings := if a.tcsetattr = -1 then t.settings else newSettings
          device :=
            { oldSettings := if a.tcgetattr = -1 then t.device.oldSettings else t.settings
              fd := a.fd
              isOpen := true } }) := by
  unfold Device.open sysOpen
  rw [exec_bind_ok (exec_getDevice t), h]
  simp only [if_neg hfd, if_pos (not_lt.1 hfd), if_neg htty]
  rfl

end Opening

section Closing

variable {t : Tty}

theorem closed_closed (h : t.device.isOpen = false) (a : Replies) : t.closed a = t := by
  rcases t with ⟨⟨settings, fd, _⟩, descriptors, settings', written, touched⟩
  cases h
  rfl

theorem closed_open (h : t.device.isOpen = true) (a : Replies) :
    t.closed a =
      { t.touches 3 with
        settings := if a.tcsetattr = -1 then t.settings else t.device.oldSettings
        descriptors := if a.released then t.descriptors.erase t.device.fd else t.descriptors
        device := { t.device with fd := -1, isOpen := false } } := by
  rcases t with ⟨⟨settings, fd, _⟩, descriptors, settings', written, touched⟩
  cases h
  rfl

end Closing

/-! ### Over any sequence of calls -/

/-- What `send` and `recv` leave behind: `isValid` closed the device, or there were calls on the descriptor only. -/
inductive Used (a : Replies) (t : Tty) : Tty → Prop
  | invalid (h : a.ioctl = -1) : Used a t ((t.touch t.device.fd).closed a)
  | valid (h : a.ioctl ≠ -1) (n : Nat) (written : List Byte) : Used a t { t.touches n with written }

namespace DeviceCall

theorem after_send (t : Tty) (a : Replies) (byte : Byte) : Used a t (after t (.send byte, a)) := by
  show Used a t (exec (Device.send a byte) t).2
  unfold Device.send
  by_cases hvalid : a.ioctl = -1
  · rw [exec_bind_error ((exec_isValid a t).trans (if_pos hvalid))]
    exact .invalid hvalid
  rw [exec_bind_ok ((exec_isValid a t).trans (if_neg hvalid))]
  have hwrite : Used a t (exec (sysWrite t.device.fd a.write byte) (t.touch t.device.fd)).2 := .valid hvalid 2 _
  by_cases hret : a.write = -1
  · simp only [if_pos hret]
    exact hwrite
  · simp only [if_neg hret]
    exact hwrite

theorem after_recv (t : Tty) (a : Replies) (sec nsec : Nat) : Used a t (after t (.recv sec nsec, a)) := by
  have hafter : after t (.recv sec nsec, a) = (exec (Device.recv a sec nsec) t).2 := by
    show (exec (Device.recv a sec nsec >>= fun _ => pure PUnit.unit) t).2 = _
    rcases hrecv : exec (Device.recv a sec nsec) t with ⟨e | byte, t'⟩
    · rw [exec_bind_error hrecv]
    · rw [exec_bind_ok hrecv]
      rfl
  rw [hafter]
  unfold Device.recv
  by_cases hvalid : a.ioctl = -1
  · rw [exec_bind_error ((exec_isValid a t).trans (if_pos hvalid))]
    exact .invalid hvalid
  rw [exec_bind_ok ((exec_isValid a t).trans (if_neg hvalid))]
  by_cases hpoll : sec > 0 ∨ nsec > 0
  · by_cases herror : a.ppoll = -1
    · simp only [if_pos hpoll, if_pos herror]
      exact .valid hvalid 2 t.written
    by_cases htimeout : a.ppoll = 0
    · simp only [if_pos hpoll, if_neg herror, if_pos htimeout]
      exact .valid hvalid 2 t.written
    · simp only [if_pos hpoll, if_neg herror, if_neg htimeout]
      show Used a t (exec (Device.readByte a) ((t.touch t.device.fd).touch t.device.fd)).2
      rw [exec_readByte]
      exact .valid hvalid 3 t.written
  · simp only [if_neg hpoll]
    show Used a t (exec (Device.readByte a) (t.touch t.device.fd)).2
    rw [exec_readByte]
    exact .valid hvalid 2 t.written

end DeviceCall

/-- What the object holds when the descriptors `leaked` were left behind. -/
structure Owns (leaked : List Int) (t : Tty) : Prop where
  descriptors : t.descriptors = (if t.device.isOpen then [t.device.fd] else []) ++ leaked
  fd : t.device.fd ∈ t.descriptors ∨ t.device.fd < 0
  touched : ∀ p ∈ t.touched, p.2 = true ∨ p.1 < 0

namespace Owns

variable {leaked : List Int} {t t' : Tty}

theorem init (original : Termios) : Owns [] { settings := original } where
  descriptors := rfl
  fd := .inr (Int.negSucc_lt_zero 0)
  touched p hp := by cases hp

/-- A call on the descriptor of the object. -/
theorem touch (h : Owns leaked t) : Owns leaked (t.touch t.device.fd) where
  descriptors := h.descriptors
  fd := h.fd
  touched p hp := by
    rcases List.mem_append.1 hp with hp | hp
    · exact h.touched p hp
    · rw [List.mem_singleton.1 hp]
      exact h.fd.imp decide_eq_true id

theorem touches (h : Owns leaked t) (n : Nat) : Owns leaked (t.touches n) := by
  induction n with
  | zero => exact h
  | succ n ih => exact ih.touch

/-- Behind `close`, with the descriptor that it left behind. -/
theorem closed (h : Owns leaked t) (a : Replies) :
    Owns (DeviceCall.leak t (.close, a) ++ leaked) (t.closed a) := by
  by_cases hopen : t.device.isOpen = true
  · have hdescriptors := h.descriptors
    rw [if_pos hopen] at hdescriptors
    rw [closed_open hopen]
    refine ⟨?_, .inr (Int.negSucc_lt_zero 0), (h.touches 3).touched⟩
    cases hreleased : a.released with
    | false =>
      rw [show DeviceCall.leak t (.close, a) = [t.device.fd] by
        simp [DeviceCall.leak, DeviceCall.closes_close, hopen, hreleased]]
      exact hdescriptors
    | true =>
      rw [show DeviceCall.leak t (.close, a) = [] by simp [DeviceCall.leak, hreleased]]
      show t.descriptors.erase t.device.fd = leaked
      rw [hdescriptors]
      exact List.erase_cons_head ..
  · rw [closed_closed (Bool.eq_false_iff.2 hopen),
      show DeviceCall.leak t (.close, a) = [] by simp [DeviceCall.leak, hopen]]
    exact h

/-- The descriptor that `open` got belongs to nothing yet. -/
theorem got (h : Owns leaked t) (hclosed : t.device.isOpen = false) (fd : Int) :
    Owns (fd :: leaked) (t.got fd) where
  descriptors := by
    have hdescriptors := h.descriptors
    rw [hclosed] at hdescriptors
    exact congrArg (fd :: ·) hdescriptors
  fd := .inl List.mem_cons_self
  touched := h.touched

/-- Behind `open`, with the descriptors that it leaves behind. -/
theorem opened (h : Owns leaked t) (a : Replies) :
    Owns (DeviceCall.leak t (.open, a) ++ leaked) (exec (Device.open a) t).2 := by
  have hcloses : ¬ (DeviceCall.open.closes a ∧ t.device.isOpen = true ∧ a.released = false) := fun h => nomatch h.1
  by_cases hopen : t.device.isOpen = true
  · have hleak : DeviceCall.leak t (.open, a) = [] :=
      (if_neg fun hl => by simp [hopen] at hl).trans (if_neg hcloses)
    rw [hleak, exec_open_open hopen]
    exact h
  have hclosed : t.device.isOpen = false := Bool.eq_false_iff.2 hopen
  by_cases hfd : a.fd < 0
  · have hleak : DeviceCall.leak t (.open, a) = [] :=
      (if_neg fun hl => absurd hl.2.2.1 (not_le.2 hfd)).trans (if_neg hcloses)
    rw [hleak, exec_open_failed hclosed hfd]
    have hdescriptors := h.descriptors
    rw [hclosed] at hdescriptors
    exact ⟨hdescriptors, .inr hfd, h.touched⟩
  have hgot := h.got hclosed a.fd
  by_cases htty : a.isatty = 0
  · have hleak : DeviceCall.leak t (.open, a) = [a.fd] := if_pos ⟨rfl, hclosed, not_lt.1 hfd, htty⟩
    rw [hleak, exec_open_other hclosed hfd htty]
    exact hgot.touch
  · have hleak : DeviceCall.leak t (.open, a) = [] := (if_neg fun hl => htty hl.2.2.2).trans (if_neg hcloses)
    rw [hleak, exec_open_tty hclosed hfd htty]
    exact ⟨hgot.descriptors, hgot.fd, (hgot.touches 6).touched⟩

/-- Behind `send` or `recv`: they leave behind what `close` does if `ioctl` fails. -/
theorem used (h : Owns leaked t) {a : Replies} {c : DeviceCall} (hcloses : c.closes a = decide (a.ioctl = -1))
    (hopen : c ≠ .open) (hused : Used a t t') : Owns (DeviceCall.leak t (c, a) ++ leaked) t' := by
  cases hused with
  | invalid hioctl =>
    have hleak : DeviceCall.leak t (c, a) = DeviceCall.leak (t.touch t.device.fd) (.close, a) := by
      simp [DeviceCall.leak, hcloses, hioctl, hopen, DeviceCall.closes_close]
    rw [hleak]
    exact h.touch.closed a
  | valid hioctl n written =>
    have hleak : DeviceCall.leak t (c, a) = [] := by simp [DeviceCall.leak, hcloses, hopen, hioctl]
    rw [hleak]
    have htouches := h.touches n
    exact ⟨htouches.descriptors, htouches.fd, htouches.touched⟩

end Owns

/-- The calls for the settings do not fail. -/
def Replies.Settles (a : Replies) : Prop := a.tcgetattr ≠ -1 ∧ a.tcsetattr ≠ -1

/-- The terminal came with the settings `original`. -/
structure Restores (original : Termios) (t : Tty) : Prop where
  settings : t.settings = if t.device.isOpen then newSettings else original
  oldSettings : t.device.isOpen = true → t.device.oldSettings = original

namespace Restores

variable {original : Termios} {t t' : Tty}

theorem init (original : Termios) : Restores original { settings := original } where
  settings := rfl
  oldSettings h := by cases h

theorem of_closed (h : t.device.isOpen = false) (hs : t.settings = original) : Restores original t where
  settings := by rw [h, hs]; rfl
  oldSettings hopen := by simp [h] at hopen

theorem touches (h : Restores original t) (n : Nat) : Restores original (t.touches n) := by
  induction n with
  | zero => exact h
  | succ n ih => exact ⟨ih.settings, ih.oldSettings⟩

theorem closed (h : Restores original t) {a : Replies} (ha : a.Settles) : Restores original (t.closed a) := by
  refine .of_closed (t.closed_isOpen a) ?_
  by_cases hopen : t.device.isOpen = true
  · rw [closed_open hopen]
    exact (if_neg ha.2).trans (h.oldSettings hopen)
  · have hsettings := h.settings
    rw [if_neg hopen] at hsettings
    rw [closed_closed (Bool.eq_false_iff.2 hopen), hsettings]

theorem opened (h : Restores original t) {a : Replies} (ha : a.Settles) :
    Restores original (exec (Device.open a) t).2 := by
  by_cases hopen : t.device.isOpen = true
  · rw [exec_open_open hopen]
    exact h
  have hclosed : t.device.isOpen = false := Bool.eq_false_iff.2 hopen
  have hsettings := h.settings
  rw [hclosed] at hsettings
  by_cases hfd : a.fd < 0
  · rw [exec_open_failed hclosed hfd]
    exact .of_closed rfl hsettings
  by_cases htty : a.isatty = 0
  · rw [exec_open_other hclosed hfd htty]
    exact .of_closed rfl hsettings
  · rw [exec_open_tty hclosed hfd htty]
    exact ⟨if_neg ha.2, fun _ => (if_neg ha.1).trans hsettings⟩

theorem used (h : Restores original t) {a : Replies} (ha : a.Settles) (hused : Used a t t') :
    Restores original t' := by
  cases hused with
  | invalid => exact (h.touches 1).closed ha
  | valid _ n =>
    have htouches := h.touches n
    exact ⟨htouches.settings, htouches.oldSettings⟩

end Restores

namespace DeviceCall

theorem after_owns {leaked : List Int} {t : Tty} (h : Owns leaked t) (c : DeviceCall × Replies) :
    Owns (leak t c ++ leaked) (after t c) := by
  obtain ⟨_ | _ | byte | ⟨sec, nsec⟩, a⟩ := c
  · exact h.opened a
  · exact h.closed a
  · exact h.used rfl (by simp) (after_send t a byte)
  · exact h.used rfl (by simp) (after_recv t a sec nsec)

theorem foldl_owns (cs : List (DeviceCall × Replies)) {leaked : List Int} {t : Tty} (h : Owns leaked t) :
    Owns (leaks t cs ++ leaked) (cs.foldl after t) := by
  induction cs generalizing leaked t with
  | nil => exact h
  | cons c cs ih =>
    rw [leaks, List.append_assoc]
    exact ih (after_owns h c)

theorem after_restores {original : Termios} {t : Tty} (h : Restores original t) {c : DeviceCall × Replies}
    (hc : c.2.Settles) : Restores original (after t c) := by
  obtain ⟨_ | _ | byte | ⟨sec, nsec⟩, a⟩ := c
  · exact h.opened hc
  · exact h.closed hc
  · exact h.used hc (after_send t a byte)
  · exact h.used hc (after_recv t a sec nsec)

theorem foldl_restores {original : Termios} (cs : List (DeviceCall × Replies)) {t : Tty}
    (h : Restores original t) (hcs : ∀ c ∈ cs, c.2.Settles) : Restores original (cs.foldl after t) := by
  induction cs generalizing t with
  | nil => exact h
  | cons c cs ih => exact ih (after_restores h (hcs c List.mem_cons_self)) fun d hd => hcs d (.tail _ hd)

end DeviceCall

/-- Over any sequence of calls no call is made on a descriptor that is not open, and the descriptors that the
destructor leaves open are those of every attempt to open something that is not a terminal, with those that the
system did not give back. While the calls for the settings do not fail, the terminal has its settings back
whenever the device is closed. -/
theorem descriptors_accounted (original : Termios) (cs : List (DeviceCall × Replies)) (a : Replies) :
    Owns (DeviceCall.leaks { settings := original } cs) (cs.foldl DeviceCall.after { settings := original }) ∧
      ((cs.foldl DeviceCall.after { settings := original }).closed a).descriptors =
          DeviceCall.leaks { settings := original } (cs ++ [(.close, a)]) ∧
        ((∀ c ∈ cs, c.2.Settles) →
          Restores original (cs.foldl DeviceCall.after { settings := original }) ∧
            (a.Settles → ((cs.foldl DeviceCall.after { settings := original }).closed a).settings = original)) := by
  have howns := DeviceCall.foldl_owns cs (.init original)
  rw [List.append_nil] at howns
  refine ⟨howns, ?_, fun hcs => ?_⟩
  · have hdescriptors := (howns.closed a).descriptors
    rw [Tty.closed_isOpen] at hdescriptors
    rw [DeviceCall.leaks_append]
    exact hdescriptors
  · have hrestores := DeviceCall.foldl_restores cs (.init original) hcs
    refine ⟨hrestores, fun ha => ?_⟩
    have hsettings := (hrestores.closed ha).settings
    rw [Tty.closed_isOpen] at hsettings
    exact hsettings

-- two attempts on a file, and one on the terminal
example (original : Termios) :
    (([(.open, { Replies.good with isatty := 0 }), (.send 0x10, { Replies.good with ioctl := -1 }),
      (.open, { Replies.good with isatty := 0, fd := 4 }), (.open, { Replies.good with fd := 5 })] :
        List (DeviceCall × Replies)).foldl DeviceCall.after { settings := original }).descriptors = [5, 4, 3] := rfl

-- with the line gone `tcsetattr` fails as well: the next `open` saves the settings of the device as the old ones
example (original : Termios) :
    (([(.open, .good), (.send 0x10, { Replies.good with ioctl := -1, tcsetattr := -1 }), (.open, .good),
      (.close, .good)] : List (DeviceCall × Replies)).foldl DeviceCall.after { settings := original }).settings =
        newSettings := rfl

end EBusFsm

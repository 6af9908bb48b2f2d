import EBusFsm.Lib.Program
import EBusFsm.Telegram.Parts

/-!
# The device and the environment of a state handler

A state handler of `EbusImpl` runs against an environment that is fixed when it starts: what the
device answers to each read and to each write, whether it can be opened, and how the process callback
reacts (`Env`). The handler consumes the answers in order and leaves a list of events: every byte
written, every byte read (which is the call of `rawdata`), the calls of `process` and `publish`, and
the messages it completed.

A handler ends with a next state or with a `Stop`. The first two are the exceptions of the device,
which `run` catches. `outOfRange` and `nullDeref` are the faults that nothing catches. `starved` means
that the handler still waits in a blocking read, `blocked` that it waits for a notification.

Left out: the logger and its texts, and the pauses of `nanosleep` and `sleep`, which no state depends
on.
-/

namespace EBusFsm

/-- A request of a `transmit` call, or the answer of `processMessage`; `state` is the result that the call
returns. The source has a reference to the telegram, a local of either function; the message keeps the telegram
itself, and `Lived` says when the reference dangles. -/
structure Message where
  id : Nat
  telegram : Telegram
  state : Int := 0
  deriving DecidableEq, Repr

/-- What the device answers to `recv`. -/
inductive RecvResult
  | byte (byte : Byte)
  | invalid
  | pollError
  | timeout
  | readError
  | eof
  deriving DecidableEq, Repr

/-- What the device answers to `send`. -/
inductive SendResult
  | ok
  | invalid
  | fail
  deriving DecidableEq, Repr

inductive Reaction
  | nofunction
  | undefined
  | ignore
  | response
  deriving DecidableEq, Repr

structure Env where
  reads : List RecvResult := []
  /-- Past its end every write succeeds. -/
  sends : List SendResult := []
  opens : Bool := true
  reaction : Reaction := .nofunction
  response : List Byte := []
  deriving DecidableEq, Repr

inductive Event
  | wrote (byte : Byte)
  | got (byte : Byte)
  | processed (message : List Byte)
  | published (message response : List Byte)
  | notified (message : Message)
  deriving DecidableEq, Repr

inductive Stop
  | warning
  | error
  | outOfRange
  | nullDeref
  | starved
  | blocked
  deriving DecidableEq, Repr

/-- The members of `EbusImpl` that its methods read, without the prefix `m_`. -/
structure EbusImpl where
  running : Bool := true
  online : Bool := false
  close : Bool := false
  address : Byte
  slaveAddress : Byte
  lockCounterMax : Int := 5
  lockCounter : Int := 0
  openCounterMax : Int := 10
  openCounter : Int := 0
  messageQueue : List Message := []
  /-- `m_device->isOpen()`. -/
  deviceOpen : Bool := false
  /-- Whether a process callback is registered. -/
  processing : Bool := false
  sequence : Sequence := {}
  activeMessage : Option Message := none
  passiveMessage : Option Message := none
  /-- `m_notify` of the base class `Notify`. -/
  notify : Bool := false
  deriving DecidableEq, Repr

structure World where
  impl : EbusImpl
  env : Env := {}
  events : List Event := []
  deriving DecidableEq, Repr

abbrev EbusM := Prog Stop World

/-! ### Access to the members -/

def getImpl : EbusM EbusImpl := do return (← get).impl

def modifyImpl (f : EbusImpl → EbusImpl) : EbusM PUnit :=
  modify fun w => { w with impl := f w.impl }

def emit (e : Event) : EbusM PUnit := modify fun w => { w with events := w.events ++ [e] }

/-- Calls a method that can throw `std::out_of_range`. -/
def liftRange {α : Type} (x : Except OutOfRange α) : EbusM α :=
  match x with
  | .ok a => pure a
  | .error _ => throw .outOfRange

/-- Dereferences a message pointer. -/
def deref (message : Option Message) : EbusM Message :=
  match message with
  | some message => pure message
  | none => throw .nullDeref

/-! ### The device -/

/-- `Device::close`. -/
def deviceClose : EbusM PUnit := modifyImpl fun impl => { impl with deviceOpen := false }

/-- `Device::open`. -/
def deviceOpen : EbusM PUnit := do
  if !(← getImpl).deviceOpen then
    if !(← get).env.opens then throw .error
    modifyImpl fun impl => { impl with deviceOpen := true }

/-- `Device::send`. -/
def deviceSend (byte : Byte) : EbusM PUnit := do
  let w ← get
  let result := w.env.sends.headD .ok
  set { w with env := { w.env with sends := w.env.sends.tail } }
  match result with
  | .ok => emit (.wrote byte)
  | .invalid =>
    deviceClose
    throw .error
  | .fail => throw .error

/-- `Device::recv`. Without a timeout it does not call `ppoll`. -/
def deviceRecv (sec nsec : Nat) : EbusM Byte := do
  let w ← get
  match w.env.reads with
  | [] => throw .starved
  | result :: reads =>
    set { w with env := { w.env with reads } }
    match result with
    | .byte byte => return byte
    | .invalid =>
      deviceClose
      throw .error
    | .pollError => if sec > 0 ∨ nsec > 0 then throw .error else throw .starved
    | .timeout => if sec > 0 ∨ nsec > 0 then throw .warning else throw .starved
    | .readError => throw .error
    | .eof => throw .warning

/-! ### Reading and writing -/

def read (sec nsec : Nat) : EbusM Byte := do
  let byte ← deviceRecv sec nsec
  emit (.got byte)
  return byte

def write (byte : Byte) : EbusM PUnit := deviceSend byte

def writeRead (byte : Byte) (sec nsec : Nat) : EbusM PUnit := do
  write byte
  let _ ← read sec nsec

end EBusFsm

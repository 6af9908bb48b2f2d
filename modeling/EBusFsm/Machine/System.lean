import EBusFsm.Machine.Handlers

/-!
# The machine and its callers

`System` is an `EbusImpl` with its thread and with the calls of `transmit` that are in progress. A
step is one handler of the thread, the test of `m_close` behind it, or something another thread does:
`open`, `close`, a setter, a step of a `transmit` call, the end of the object. A handler reads the
members that other threads change at one point only (`m_close` not at all, the queue once in
`monitorBus`), so other threads act between handlers. `idleSystem` clears `m_close` before it reads the flag
of `Notify`: an `open` between the two is one before the handler, a `close` one behind it.

A call of `transmit` checks the telegram, its own address and `online`, then enqueues the message and
waits until it is notified. The check and the enqueuing are separate steps, because the machine may go
offline between them. `request` and `id` tell the calls apart; the source has a pointer for it. A call returns
once its message is completed: that `wait` may return without a notification is left out here (see `Lived`).
-/

namespace EBusFsm

/-- Where the thread of `run` is. -/
inductive Control
  | loop (state : State)
  /-- Behind the handler, before `if (m_close) state = State::IdleSystem`. -/
  | check (state : State)
  /-- In the `wait` of `idleSystem`. -/
  | waiting
  /-- In a read that never returns. -/
  | hung
  | stopped
  /-- An exception that `run` does not catch, or a null pointer. -/
  | crashed
  deriving DecidableEq, Repr

/-- A finished call of `transmit`; its `id` is zero if it failed before it had a message. -/
structure Return where
  id : Nat
  request : List Byte
  result : Int
  response : List Byte
  deriving DecidableEq, Repr

/-- A call of `transmit` between its checks and its return. -/
structure Call where
  id : Nat
  request : List Byte
  deriving DecidableEq, Repr

structure System where
  impl : EbusImpl
  control : Control := .loop .openDevice
  nextId : Nat := 1
  calls : List Call := []
  /-- Messages that passed the checks and are not enqueued yet. -/
  entering : List Message := []
  /-- Messages that were notified. -/
  completed : List Message := []
  returned : List Return := []
  log : List Event := []
  deriving DecidableEq, Repr

inductive Action
  | openCall
  | closeCall
  | registerProcess
  | setLockCounterMax (value : Int)
  | setOpenCounterMax (value : Int)
  | transmit (message : List Byte)
  | enqueue (message : Message)
  | awake (call : Call) (message : Message)
  | thread (env : Env)
  | check
  | wake
  | halt
  deriving DecidableEq, Repr

/-- `EbusImpl::EbusImpl`. -/
def initImpl (address : Byte) : EbusImpl := { address, slaveAddress := slaveAddress address }

def System.init (address : Byte) : System := { impl := initImpl address }

/-- The messages that a handler notified. -/
def notifiedMessages (events : List Event) : List Message :=
  events.filterMap fun event =>
    match event with
    | .notified message => some message
    | _ => none

/-- The position of the thread after a handler. -/
def Control.after : Except Stop State → Control
  | .ok state => .check state
  | .error .blocked => .waiting
  | .error .starved => .hung
  | .error _ => .crashed

namespace System

/-- The first part of `transmit`: the telegram is created and checked. -/
def callTransmit (s : System) (message : List Byte) : Option System :=
  match ({} : Telegram).createMasterFrom s.impl.address message with
  | .error _ => none
  | .ok (tel, _) =>
    let fail (result : Int) : Option System :=
      some { s with returned := ⟨0, message, result, tel.slave.seq⟩ :: s.returned }
    if tel.masterState ≠ SEQ_OK then fail EBUS_ERR_SEQUENCE
    else if !isMaster s.impl.address then fail EBUS_ERR_MASTER
    else if !s.impl.online then fail EBUS_ERR_OFFLINE
    else some
      { s with
        nextId := s.nextId + 1
        calls := ⟨s.nextId, message⟩ :: s.calls
        entering := ⟨s.nextId, tel, 0⟩ :: s.entering }

/-- One round of the loop in `run`, without the test of `m_close`. -/
def runThread (s : System) (state : State) (env : Env) : System :=
  if !s.impl.running then { s with control := .stopped }
  else
    let (result, w) := Prog.exec (runState state) { impl := s.impl, env }
    { s with
      impl := w.impl
      control := .after result
      completed := notifiedMessages w.events ++ s.completed
      log := s.log ++ w.events }

def step (s : System) : Action → Option System
  | .openCall => some { s with impl := { s.impl with notify := true } }
  | .closeCall => some { s with impl := { s.impl with close := true } }
  | .registerProcess => some { s with impl := { s.impl with processing := true } }
  | .setLockCounterMax value => some { s with impl := { s.impl with lockCounterMax := value } }
  | .setOpenCounterMax value => some { s with impl := { s.impl with openCounterMax := value } }
  | .transmit message => s.callTransmit message
  | .enqueue message =>
    if message ∈ s.entering then
      some
        { s with
          entering := s.entering.erase message
          impl := { s.impl with messageQueue := s.impl.messageQueue ++ [message] } }
    else none
  | .awake call message =>
    if call ∈ s.calls ∧ message ∈ s.completed ∧ message.id = call.id then
      some
        { s with
          calls := s.calls.erase call
          returned :=
            ⟨call.id, call.request, message.state, message.telegram.slave.seq⟩ :: s.returned }
    else none
  | .thread env =>
    match s.control with
    | .loop state => some (s.runThread state env)
    | _ => none
  | .check =>
    match s.control with
    | .check state =>
      some { s with control := .loop (if s.impl.close then .idleSystem else state) }
    | _ => none
  | .wake =>
    -- a spurious wake-up clears the flag as well
    match s.control with
    | .waiting => some { s with impl := { s.impl with notify := false }, control := .check .openDevice }
    | _ => none
  | .halt => if s.impl.online then none else some { s with impl := { s.impl with running := false } }

end System

end EBusFsm

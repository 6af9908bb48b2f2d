import EBusFsm.Machine.Device

/-!
# The state handlers

The handlers of `EbusImpl` in the order of `Ebus.cpp`, and the body of the loop in `run`. Each reads
the device and changes the members exactly where the source does. A handler that binds a reference to
a telegram of a message works on a copy and writes it back, since no other thread changes it while the
message is active. `m_passiveMessage` refers to a local of `processMessage` that is gone when `sendResponse`
reads it; here it keeps the telegram, which grants it a life that it does not have (see `Lived`).

The loops that lengthen themselves when an escape byte arrives take the number of bytes still to be
read; every round reads a byte, so the length of the script of reads bounds them.
-/

namespace EBusFsm

def EBUS_ERR_MASTER : Int := -1
def EBUS_ERR_SEQUENCE : Int := -2
def EBUS_ERR_TRANSMIT : Int := -3
def EBUS_ERR_DEVICE : Int := -4
def EBUS_ERR_OFFLINE : Int := -5

inductive State
  | idleSystem
  | openDevice
  | monitorBus
  | receiveMessage
  | processMessage
  | sendResponse
  | lockBus
  | sendMessage
  | receiveResponse
  | freeBus
  deriving DecidableEq, Repr

def setSequence (seq : Sequence) : EbusM PUnit :=
  modifyImpl fun impl => { impl with sequence := seq }

def setActive (message : Message) : EbusM PUnit :=
  modifyImpl fun impl => { impl with activeMessage := some message }

/-- `m_activeMessage->m_state = state`. -/
def setActiveState (state : Int) : EbusM PUnit := do
  let message ← deref (← getImpl).activeMessage
  setActive { message with state }

/-- `publish`; the callbacks are assumed not to throw. -/
def publish (message response : List Byte) : EbusM PUnit := emit (.published message response)

def process (message : List Byte) : EbusM (Reaction × List Byte) := do
  if (← getImpl).processing then
    emit (.processed message)
    return ((← get).env.reaction, (← get).env.response)
  else return (.nofunction, [])

def reset : EbusM PUnit := do
  modifyImpl fun impl =>
    { impl with openCounter := 0, lockCounter := impl.lockCounterMax, sequence := {} }
  match (← getImpl).activeMessage with
  | none => pure ()
  | some message =>
    publish message.telegram.master.seq message.telegram.slave.seq
    emit (.notified message)
    modifyImpl fun impl => { impl with activeMessage := none }
  modifyImpl fun impl => { impl with passiveMessage := none }

/-! ### Opening and closing -/

/-- `if (m_device->isOpen()) m_device->close()`. -/
def closeDevice : EbusM PUnit := do
  if (← getImpl).deviceOpen then deviceClose

def idleSystem : EbusM State := do
  closeDevice
  reset
  modifyImpl fun impl => { impl with online := false, close := false }
  if (← getImpl).notify then return .openDevice
  throw .blocked

/-- The loop of `openDevice` that waits for a synchronization byte. -/
def flushDevice : Nat → EbusM PUnit
  | 0 => throw .starved
  | fuel + 1 => do
    let byte ← read 1 0
    if byte ≠ seqSyn then flushDevice fuel

def flush : EbusM PUnit := do flushDevice ((← get).env.reads.length + 1)

/-- `openDevice` once the device is open. -/
def synchronize : EbusM State := do
  flush
  reset
  modifyImpl fun impl => { impl with online := true }
  return .monitorBus

def openDevice : EbusM State := do
  if !(← getImpl).deviceOpen then
    deviceOpen
    if !(← getImpl).deviceOpen then
      modifyImpl fun impl => { impl with openCounter := impl.openCounter + 1 }
      let impl ← getImpl
      if impl.openCounter > impl.openCounterMax then return .idleSystem
      return .openDevice
  synchronize

/-! ### The passive side -/

/-- Counts a synchronization byte. -/
def countLock : EbusM PUnit :=
  modifyImpl fun impl =>
    { impl with
      lockCounter := if impl.lockCounter ≠ 0 then impl.lockCounter - 1 else impl.lockCounter }

/-- Decodes what was read since the last synchronization byte. -/
def decodeSequence : EbusM PUnit := do
  let (tel, seq) ← liftRange (Telegram.ofSequence (← getImpl).sequence)
  setSequence seq
  if tel.isValid then publish tel.master.seq tel.slave.seq
  modifyImpl fun impl =>
    { impl with
      lockCounter :=
        if impl.sequence.size = 1 ∧ impl.lockCounter < 2 then 2 else impl.lockCounter }
  setSequence {}

/-- Takes the next message from the queue. -/
def dequeueMessage : EbusM PUnit :=
  modifyImpl fun impl =>
    match impl.activeMessage, impl.messageQueue with
    | none, message :: queue => { impl with activeMessage := some message, messageQueue := queue }
    | _, _ => impl

/-- Checks for a message and handles it. -/
def checkMessage : EbusM State := do
  dequeueMessage
  let impl ← getImpl
  if impl.activeMessage.isSome ∧ impl.lockCounter = 0 then return .lockBus
  return .monitorBus

/-- The branch of `monitorBus` for a synchronization byte. -/
def handleSyn : EbusM State := do
  countLock
  if (← getImpl).sequence.size ≠ 0 then decodeSequence
  checkMessage

def monitorBus : EbusM State := do
  let byte ← read 1 0
  if byte = seqSyn then handleSyn
  else
    setSequence ((← getImpl).sequence.pushBack byte)
    let impl ← getImpl
    if impl.sequence.size = 2 then
      let zz ← liftRange (impl.sequence.byteAt 1)
      if zz = seqBroad ∨ zz = impl.address ∨ zz = impl.slaveAddress then return .receiveMessage
    return .monitorBus

/-- Reads one byte and appends it to `m_sequence`. -/
def receiveByte : EbusM Byte := do
  let byte ← read 1 0
  setSequence ((← getImpl).sequence.pushBack byte)
  return byte

/-- A loop of `receiveMessage` that reads `bytes` bytes and one more for each escape byte. -/
def receiveBytes : (fuel bytes : Nat) → EbusM PUnit
  | _, 0 => pure ()
  | 0, _ + 1 => throw .starved
  | fuel + 1, bytes + 1 => do
    let byte ← receiveByte
    if byte = seqExp then receiveBytes fuel (bytes + 1) else receiveBytes fuel bytes

def receiveCounted (bytes : Nat) : EbusM PUnit := do
  receiveBytes ((← get).env.reads.length + 1) bytes

/-- `receiveMessage` after the acknowledge byte. -/
def deliverMessage (tel : Telegram) : EbusM State := do
  if tel.masterState = SEQ_OK then
    if tel.type ≠ .MS then publish tel.master.seq tel.slave.seq
    return .processMessage
  setSequence {}
  return .monitorBus

/-- `receiveMessage` after the bytes of the message. -/
def acknowledgeMessage : EbusM State := do
  let (tel, seq) ← liftRange (({} : Telegram).createMaster (← getImpl).sequence)
  setSequence seq
  if (← liftRange (seq.byteAt 1)) ≠ seqBroad then
    writeRead (if tel.masterState = SEQ_OK then seqAck else seqNak) 0 0
  deliverMessage tel

def receiveMessage : EbusM State := do
  let _ ← receiveByte
  let _ ← receiveByte
  let _ ← receiveByte
  let nn ← liftRange ((← getImpl).sequence.byteAt 4)
  if nn.toNat > seqMaxBytes then
    setActiveState EBUS_ERR_TRANSMIT
    reset
    return .monitorBus
  receiveCounted nn.toNat
  receiveCounted 1
  acknowledgeMessage

def processMessage : EbusM State := do
  let (tel, seq) ← liftRange (({} : Telegram).createMaster (← getImpl).sequence)
  setSequence seq
  let (reaction, response) ← process tel.master.seq
  if reaction = .response then
    if tel.type = .MS then
      let (tel, _) ← liftRange (tel.createSlaveFrom response)
      if tel.slaveState = SEQ_OK then
        modifyImpl fun impl => { impl with passiveMessage := some { id := 0, telegram := tel } }
        return .sendResponse
  setSequence {}
  return .monitorBus

/-- Writes and reads back the bytes of a part and its CRC. -/
def sendPart (part : List Byte) (crc : Byte) : EbusM PUnit := do
  part.forM fun byte => writeRead byte 0 0
  writeRead crc 0 0

/-- `sendResponse` after its loop. -/
def finishResponse (message : Message) (byte : Byte) : EbusM State := do
  let tel := message.telegram.setMasterACK byte
  modifyImpl fun impl => { impl with passiveMessage := some { message with telegram := tel } }
  publish tel.master.seq tel.slave.seq
  reset
  return .monitorBus

def sendResponse : EbusM State := do
  let message ← deref (← getImpl).passiveMessage
  let tel := message.telegram
  sendPart tel.slave.seq tel.slaveCRC
  let byte ← read 0 10000
  if byte = seqNak then
    sendPart tel.slave.seq tel.slaveCRC
    let byte ← read 0 10000
    finishResponse message byte
  else finishResponse message byte

/-! ### The active side -/

def lockBus : EbusM State := do
  let message ← deref (← getImpl).activeMessage
  let qq ← liftRange message.telegram.getMasterQQ
  write qq
  let byte ← read 0 10000
  if byte ≠ qq then
    if byte &&& 0x0f ≠ qq &&& 0x0f then
      modifyImpl fun impl => { impl with lockCounter := impl.lockCounterMax }
    else
      modifyImpl fun impl => { impl with lockCounter := 1 }
    return .monitorBus
  return .sendMessage

/-- A round of the loop in `sendMessage`; `none` means that the loop goes on. -/
def sendAttempt (retry : Nat) : EbusM (Option State) := do
  let message ← deref (← getImpl).activeMessage
  let tel := message.telegram
  sendPart (tel.master.seq.drop retry) tel.masterCRC
  if tel.type = .BC then return some .freeBus
  let byte ← read 0 10000
  let message := { message with telegram := tel.setSlaveACK byte }
  setActive message
  if byte ≠ seqAck ∧ byte ≠ seqNak then
    setActive { message with state := EBUS_ERR_TRANSMIT }
    return some .freeBus
  else if byte = seqAck then
    if tel.type = .MM then return some .freeBus
    return some .receiveResponse
  else
    if retry ≠ 1 then setActive { message with state := EBUS_ERR_TRANSMIT }
    return none

def sendMessage : EbusM State := do
  match ← sendAttempt 1 with
  | some state => return state
  | none =>
    match ← sendAttempt 0 with
    | some state => return state
    | none => return .freeBus

/-- The loop of `receiveResponse` that reads `bytes` bytes and one more for each escape byte. -/
def receivePart : (fuel bytes : Nat) → Sequence → EbusM Sequence
  | _, 0, seq => pure seq
  | 0, _ + 1, _ => throw .starved
  | fuel + 1, bytes + 1, seq => do
    let byte ← read 1 0
    if byte = seqExp then receivePart fuel (bytes + 1) (seq.pushBack byte)
    else receivePart fuel bytes (seq.pushBack byte)

def receiveSlave (nn : Byte) : EbusM Sequence := do
  receivePart ((← get).env.reads.length + 1) (nn.toNat + 1) (({} : Sequence).pushBack nn)

/-- A round of the loop in `receiveResponse`, once the bytes of the response are read. -/
def acknowledgeResponse (retry : Nat) (seq : Sequence) : EbusM (Option State) := do
  let message ← deref (← getImpl).activeMessage
  let (tel, _) ← liftRange (message.telegram.createSlave seq)
  setActive { message with telegram := tel }
  let byte := if tel.slaveState = SEQ_OK then seqAck else seqNak
  writeRead byte 0 0
  setActive { message with telegram := tel.setMasterACK byte }
  if tel.slaveState = SEQ_OK then return some .freeBus
  if retry ≠ 1 then setActiveState EBUS_ERR_TRANSMIT
  return none

/-- A round of the loop in `receiveResponse`; `none` means that the loop goes on. -/
def receiveAttempt (retry : Nat) : EbusM (Option State) := do
  let nn ← read 1 0
  if nn.toNat > seqMaxBytes then
    setActiveState EBUS_ERR_TRANSMIT
    reset
    return some .monitorBus
  let seq ← receiveSlave nn
  acknowledgeResponse retry seq

def receiveResponse : EbusM State := do
  let _ ← deref (← getImpl).activeMessage
  match ← receiveAttempt 1 with
  | some state => return state
  | none =>
    match ← receiveAttempt 0 with
    | some state => return state
    | none => return .freeBus

def freeBus : EbusM State := do
  writeRead seqSyn 0 0
  reset
  return .monitorBus

/-! ### The loop of `run` -/

def handleDeviceError (error : Bool) : EbusM State := do
  match (← getImpl).activeMessage with
  | none => pure ()
  | some message => setActive { message with state := EBUS_ERR_DEVICE }
  reset
  if error then
    deviceClose
    return .openDevice
  return .monitorBus

def handler : State → EbusM State
  | .idleSystem => idleSystem
  | .openDevice => openDevice
  | .monitorBus => monitorBus
  | .receiveMessage => receiveMessage
  | .processMessage => processMessage
  | .sendResponse => sendResponse
  | .lockBus => lockBus
  | .sendMessage => sendMessage
  | .receiveResponse => receiveResponse
  | .freeBus => freeBus

/-- The `try` block of `run`; only the two exceptions of the device are caught. -/
def runState (state : State) : EbusM State :=
  tryCatch (handler state) fun stop =>
    match stop with
    | .warning => handleDeviceError false
    | .error => handleDeviceError true
    | stop => throw stop

end EBusFsm

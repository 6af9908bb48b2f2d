import EBusFsm.Sequence

/-!
# Telegrams

`Telegram` is the class of `Telegram.cpp`: a master part, a slave part, their CRC and acknowledge
bytes, and for each part a state that is `SEQ_OK` or an error. `createMaster` and `createSlave` fill
one part from its bytes; the CRC byte may be left out, and then the part is stored reduced, while a
part that came with its CRC is stored in the extended form in which `Sequence.crc` leaves it.
`parse` decodes everything that was read between two synchronization bytes; its body is split here
at the places where the source opens a block, and each part keeps the order of the source.

Methods that take a sequence by reference return it as they leave it. Access out of range is an
`OutOfRange`, as in the source; that it never happens is proved, not assumed.
-/

namespace EBusFsm

def SEQ_EMPTY : Int := 99
def SEQ_OK : Int := 0
def SEQ_ERR_SHORT : Int := -1
def SEQ_ERR_LONG : Int := -2
def SEQ_ERR_NN : Int := -3
def SEQ_ERR_CRC : Int := -4
def SEQ_ERR_ACK : Int := -5
def SEQ_ERR_QQ : Int := -6
def SEQ_ERR_ZZ : Int := -7
def SEQ_ERR_ACK_MISS : Int := -8
def SEQ_ERR_INVALID : Int := -9

/-- `ebus::Type`. -/
inductive TelegramType
  | undefined
  | BC
  | MM
  | MS
  deriving DecidableEq, Repr

def seqAck : Byte := 0x00
def seqNak : Byte := 0xff
def seqBroad : Byte := 0xfe

def seqMaxBytes : Nat := 16

structure Telegram where
  type : TelegramType := .undefined
  master : Sequence := {}
  masterNN : Nat := 0
  masterCRC : Byte := seqZero
  masterState : Int := SEQ_EMPTY
  slaveACK : Byte := seqZero
  slave : Sequence := {}
  slaveNN : Nat := 0
  slaveCRC : Byte := seqZero
  slaveState : Int := SEQ_EMPTY
  masterACK : Byte := seqZero
  deriving DecidableEq, Repr

/-! ### Addresses -/

def isMaster (byte : Byte) : Bool :=
  let hi := (byte &&& 0xf0) >>> 4
  let lo := byte &&& 0x0f
  (hi == 0x0 || hi == 0x1 || hi == 0x3 || hi == 0x7 || hi == 0xf) &&
    (lo == 0x0 || lo == 0x1 || lo == 0x3 || lo == 0x7 || lo == 0xf)

def isSlave (byte : Byte) : Bool := !isMaster byte && byte != seqSyn && byte != seqExp

def slaveAddress (address : Byte) : Byte := if isSlave address then address else address + 5

def isAddressValid (byte : Byte) : Bool := byte != seqSyn && byte != seqExp

/-- The type that `set_type` derives from the target address. -/
def typeOf (byte : Byte) : TelegramType :=
  if byte = seqBroad then .BC else if isMaster byte then .MM else .MS

/-! ### Checks of a sequence that must contain the CRC byte -/

def checkMasterSequence (seq : Sequence) : Except OutOfRange Int := do
  if seq.size < 6 then return SEQ_ERR_SHORT
  if !isMaster (← seq.byteAt 0) then return SEQ_ERR_QQ
  if !isAddressValid (← seq.byteAt 1) then return SEQ_ERR_ZZ
  if (← seq.byteAt 4).toNat > seqMaxBytes then return SEQ_ERR_NN
  if seq.size < 5 + (← seq.byteAt 4).toNat + 1 then return SEQ_ERR_SHORT
  return SEQ_OK

def checkSlaveSequence (seq : Sequence) : Except OutOfRange Int := do
  if seq.size < 2 then return SEQ_ERR_SHORT
  if (← seq.byteAt 0).toNat > seqMaxBytes then return SEQ_ERR_NN
  if seq.size < 1 + (← seq.byteAt 0).toNat + 1 then return SEQ_ERR_SHORT
  return SEQ_OK

namespace Telegram

def clear (tel : Telegram) : Telegram :=
  { tel with
    type := .undefined
    master := {}
    masterNN := 0
    masterCRC := seqZero
    masterACK := seqZero
    masterState := SEQ_EMPTY
    slave := {}
    slaveNN := 0
    slaveCRC := seqZero
    slaveACK := seqZero
    slaveState := SEQ_EMPTY }

def getMasterQQ (tel : Telegram) : Except OutOfRange Byte := tel.master.byteAt 0

def setSlaveACK (tel : Telegram) (byte : Byte) : Telegram := { tel with slaveACK := byte }

def setMasterACK (tel : Telegram) (byte : Byte) : Telegram := { tel with masterACK := byte }

def setType (tel : Telegram) (byte : Byte) : Telegram := { tel with type := typeOf byte }

def isValid (tel : Telegram) : Bool :=
  if tel.type ≠ .MS then decide (tel.masterState = SEQ_OK)
  else decide (tel.masterState + tel.slaveState = SEQ_OK)

/-! ### Creating a part -/

def createMaster (tel : Telegram) (seq : Sequence) : Except OutOfRange (Telegram × Sequence) := do
  let tel := { tel with masterState := SEQ_OK }
  let seq := seq.reduce
  if seq.size < 6 then return ({ tel with masterState := SEQ_ERR_SHORT }, seq)
  if !isMaster (← seq.byteAt 0) then return ({ tel with masterState := SEQ_ERR_QQ }, seq)
  if !isAddressValid (← seq.byteAt 1) then return ({ tel with masterState := SEQ_ERR_ZZ }, seq)
  if (← seq.byteAt 4).toNat > seqMaxBytes then
    return ({ tel with masterState := SEQ_ERR_NN }, seq)
  if seq.size < 5 + (← seq.byteAt 4).toNat then
    return ({ tel with masterState := SEQ_ERR_SHORT }, seq)
  if seq.size > 5 + (← seq.byteAt 4).toNat + 1 then
    return ({ tel with masterState := SEQ_ERR_LONG }, seq)
  let tel := tel.setType (← seq.byteAt 1)
  let tel := { tel with masterNN := (← seq.byteAt 4).toNat }
  if seq.size = 5 + tel.masterNN then
    let tel := { tel with master := seq }
    let (crc, seq) := seq.crc
    return ({ tel with masterCRC := crc }, seq)
  else
    let tel := { tel with master := ← seq.slice 0 (5 + tel.masterNN) }
    let tel := { tel with masterCRC := ← seq.byteAt (5 + tel.masterNN) }
    let (crc, master) := tel.master.crc
    let tel := { tel with master := master }
    if crc ≠ tel.masterCRC then return ({ tel with masterState := SEQ_ERR_CRC }, seq)
    return (tel, seq)

/-- The overload that takes the source address and a byte vector. -/
def createMasterFrom (tel : Telegram) (src : Byte) (vec : List Byte) :
    Except OutOfRange (Telegram × Sequence) :=
  tel.createMaster
    (vec.foldl (fun seq byte => seq.pushBack byte false) (({} : Sequence).pushBack src false))

def createSlave (tel : Telegram) (seq : Sequence) : Except OutOfRange (Telegram × Sequence) := do
  let tel := { tel with slaveState := SEQ_OK }
  let seq := seq.reduce
  if seq.size < 2 then return ({ tel with slaveState := SEQ_ERR_SHORT }, seq)
  if (← seq.byteAt 0).toNat > seqMaxBytes then
    return ({ tel with slaveState := SEQ_ERR_NN }, seq)
  if seq.size < 1 + (← seq.byteAt 0).toNat then
    return ({ tel with slaveState := SEQ_ERR_SHORT }, seq)
  if seq.size > 1 + (← seq.byteAt 0).toNat + 1 then
    return ({ tel with slaveState := SEQ_ERR_LONG }, seq)
  let tel := { tel with slaveNN := (← seq.byteAt 0).toNat }
  if seq.size = 1 + tel.slaveNN then
    let tel := { tel with slave := seq }
    let (crc, seq) := seq.crc
    return ({ tel with slaveCRC := crc }, seq)
  else
    let tel := { tel with slave := ← seq.slice 0 (1 + tel.slaveNN) }
    let tel := { tel with slaveCRC := ← seq.byteAt (1 + tel.slaveNN) }
    let (crc, slave) := tel.slave.crc
    let tel := { tel with slave := slave }
    if crc ≠ tel.slaveCRC then return ({ tel with slaveState := SEQ_ERR_CRC }, seq)
    return (tel, seq)

/-- The overload that takes a byte vector. -/
def createSlaveFrom (tel : Telegram) (vec : List Byte) : Except OutOfRange (Telegram × Sequence) :=
  tel.createSlave (vec.foldl (fun seq byte => seq.pushBack byte false) {})

/-! ### Parsing -/

/-- The block of `parse` that handles a NAK from the master. -/
def parseSlaveAgain (tel : Telegram) (seq2 slave : Sequence) : Except OutOfRange Telegram := do
  if seq2.size < slave.size + 2 then return { tel with slaveState := SEQ_ERR_SHORT }
  let offset := slave.size + 2
  let tel := { tel with slave := {} }
  let tmp ← seq2.slice offset
  let tel := { tel with slaveState := ← checkSlaveSequence tmp }
  if tel.slaveState ≠ SEQ_OK then return tel
  let slave2 ← seq2.slice offset (1 + (← seq2.byteAt offset).toNat + 1)
  let (tel, _) ← tel.createSlave slave2
  if tmp.size ≤ 1 + tel.slaveNN + 1 then return { tel with masterState := SEQ_ERR_ACK_MISS }
  let tel := { tel with masterACK := ← tmp.byteAt (1 + tel.slaveNN + 1) }
  if tel.masterACK ≠ seqAck ∧ tel.masterACK ≠ seqNak then
    return { tel with masterState := SEQ_ERR_ACK }
  if tmp.size > 1 + tel.slaveNN + 2 then
    return { tel with slaveState := SEQ_ERR_LONG, slave := {} }
  if tel.masterACK = seqNak then return { tel with slaveState := SEQ_ERR_INVALID }
  return tel

/-- The block of `parse` for the slave part; `offset` is where the accepted master part starts. -/
def parseSlave (tel : Telegram) (seq : Sequence) (offset : Nat) : Except OutOfRange Telegram := do
  if tel.type ≠ .MS then return tel
  let offset := offset + (5 + tel.masterNN + 2)
  let seq2 ← seq.slice offset
  let tel := { tel with slaveState := ← checkSlaveSequence seq2 }
  if tel.slaveState ≠ SEQ_OK then return tel
  let slave ← seq2.slice 0 (1 + (← seq2.byteAt 0).toNat + 1)
  let (tel, slave) ← tel.createSlave slave
  if tel.slaveState ≠ SEQ_OK then return tel
  if seq2.size ≤ 1 + tel.slaveNN + 1 then return { tel with masterState := SEQ_ERR_ACK_MISS }
  let tel := { tel with masterACK := ← seq2.byteAt (1 + tel.slaveNN + 1) }
  if tel.masterACK ≠ seqAck ∧ tel.masterACK ≠ seqNak then
    return { tel with masterState := SEQ_ERR_ACK }
  if tel.masterACK = seqNak then tel.parseSlaveAgain seq2 slave else return tel

/-- The block of `parse` that handles a NAK from the slave. -/
def parseMasterAgain (tel : Telegram) (seq master : Sequence) : Except OutOfRange Telegram := do
  if seq.size < master.size + 1 then return { tel with masterState := SEQ_ERR_SHORT }
  let offset := master.size + 1
  let tel := { tel with master := {} }
  let tmp ← seq.slice offset
  let tel := { tel with masterState := ← checkMasterSequence tmp }
  if tel.masterState ≠ SEQ_OK then return tel
  let master2 ← tmp.slice 0 (5 + (← tmp.byteAt 4).toNat + 1)
  let (tel, _) ← tel.createMaster master2
  if tel.masterState ≠ SEQ_OK then return tel
  if tmp.size ≤ 5 + tel.masterNN + 1 then return { tel with slaveState := SEQ_ERR_ACK_MISS }
  let tel := { tel with slaveACK := ← tmp.byteAt (5 + tel.masterNN + 1) }
  if tel.slaveACK ≠ seqAck ∧ tel.slaveACK ≠ seqNak then
    return { tel with slaveState := SEQ_ERR_ACK }
  if tel.slaveACK = seqNak then
    if tmp.size > 5 + tel.masterNN + 2 then return { tel with masterState := SEQ_ERR_LONG }
    else return { tel with masterState := SEQ_ERR_INVALID }
  tel.parseSlave seq offset

/-- The block of `parse` for the acknowledge byte of the slave. -/
def parseAck (tel : Telegram) (seq master : Sequence) : Except OutOfRange Telegram := do
  if seq.size ≤ 5 + tel.masterNN + 1 then return { tel with slaveState := SEQ_ERR_ACK_MISS }
  let tel := { tel with slaveACK := ← seq.byteAt (5 + tel.masterNN + 1) }
  if tel.slaveACK ≠ seqAck ∧ tel.slaveACK ≠ seqNak then
    return { tel with slaveState := SEQ_ERR_ACK }
  if tel.slaveACK = seqNak then tel.parseMasterAgain seq master else tel.parseSlave seq 0

/-- `parse` after `clear` and `reduce`. -/
def parseReduced (tel : Telegram) (seq : Sequence) : Except OutOfRange Telegram := do
  let tel := { tel with masterState := ← checkMasterSequence seq }
  if tel.masterState ≠ SEQ_OK then return tel
  let master ← seq.slice 0 (5 + (← seq.byteAt 4).toNat + 1)
  let (tel, master) ← tel.createMaster master
  if tel.masterState ≠ SEQ_OK then return tel
  if tel.type ≠ .BC then tel.parseAck seq master else tel.parseSlave seq 0

def parse (tel : Telegram) (seq : Sequence) : Except OutOfRange (Telegram × Sequence) := do
  let tel := tel.clear
  let seq := seq.reduce
  let tel ← tel.parseReduced seq
  return (tel, seq)

/-- The constructor that parses. -/
def ofSequence (seq : Sequence) : Except OutOfRange (Telegram × Sequence) := ({} : Telegram).parse seq

end Telegram

end EBusFsm

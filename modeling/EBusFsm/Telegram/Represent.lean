import EBusFsm.Lib.Fallible
import EBusFsm.Telegram.Parse

/-!
# What the members of a telegram say

`Represented` is the representation invariant of `Telegram`: a state `SEQ_OK` stands beside a part, its
size, its type and its CRC. `represented_of_ops` says that no sequence of calls breaks it, failed ones
included. A call that fails leaves an error in the state of the part that it was about to overwrite; the
checks at the head of a block of `parse` do set the state to `SEQ_OK` before the part is there, but the part is
created right behind them, and this sets the state again.
-/

namespace EBusFsm

/-! ### The property -/

/-- The master state is an error, or the master fields describe one part. -/
def MasterRepresented (tel : Telegram) : Prop :=
  tel.masterState = SEQ_OK → ∃ m : Master, tel.master.reduce.seq = m.bytes ∧
    tel.masterNN = m.data.length ∧ tel.type = m.type ∧ tel.masterCRC = tel.master.crc.1

/-- The slave state is an error, or the slave fields describe one part. -/
def SlaveRepresented (tel : Telegram) : Prop :=
  tel.slaveState = SEQ_OK → ∃ s : Slave, tel.slave.reduce.seq = s.bytes ∧
    tel.slaveNN = s.data.length ∧ tel.slaveCRC = tel.slave.crc.1

structure Represented (tel : Telegram) : Prop where
  master : MasterRepresented tel
  slave : SlaveRepresented tel

/-- A call on a telegram. -/
inductive Telegram.Op
  | construct
  | constructFrom (seq : Sequence)
  | parse (seq : Sequence)
  | createMasterFrom (src : Byte) (vec : List Byte)
  | createMaster (seq : Sequence)
  | createSlaveFrom (vec : List Byte)
  | createSlave (seq : Sequence)
  | clear
  | setSlaveACK (byte : Byte)
  | setMasterACK (byte : Byte)
  deriving DecidableEq, Repr

/-- The telegram after the call; what the call leaves in its argument is dropped. -/
def Telegram.apply (tel : Telegram) : Telegram.Op → Except OutOfRange Telegram
  | .construct => .ok {}
  | .constructFrom seq => (Telegram.ofSequence seq).map Prod.fst
  | .parse seq => (tel.parse seq).map Prod.fst
  | .createMasterFrom src vec => (tel.createMasterFrom src vec).map Prod.fst
  | .createMaster seq => (tel.createMaster seq).map Prod.fst
  | .createSlaveFrom vec => (tel.createSlaveFrom vec).map Prod.fst
  | .createSlave seq => (tel.createSlave seq).map Prod.fst
  | .clear => .ok tel.clear
  | .setSlaveACK byte => .ok (tel.setSlaveACK byte)
  | .setMasterACK byte => .ok (tel.setMasterACK byte)

/-! ### Creating a part -/

theorem Master.Text.crc_stored {m : Master} {l : List Byte} {stored : Sequence} (h : m.Text l stored) :
    stored.crc.1 = m.crc := by
  cases h <;> rfl

theorem Slave.Text.crc_stored {s : Slave} {l : List Byte} {stored : Sequence} (h : s.Text l stored) :
    stored.crc.1 = s.crc := by
  cases h <;> rfl

theorem MasterRepresented.of_error {tel : Telegram} (e : Int) (he : e ≠ SEQ_OK)
    (h : tel.masterState = e) : MasterRepresented tel := fun hok => absurd (h.symm.trans hok) he

theorem SlaveRepresented.of_error {tel : Telegram} (e : Int) (he : e ≠ SEQ_OK)
    (h : tel.slaveState = e) : SlaveRepresented tel := fun hok => absurd (h.symm.trans hok) he

theorem represented_of_empty {tel : Telegram} (hmaster : tel.masterState = SEQ_EMPTY)
    (hslave : tel.slaveState = SEQ_EMPTY) : Represented tel :=
  ⟨.of_error SEQ_EMPTY (by decide) hmaster, .of_error SEQ_EMPTY (by decide) hslave⟩

theorem createMaster_represented (tel : Telegram) (seq : Sequence) :
    ∃ tel' seq', tel.createMaster seq = .ok (tel', seq') ∧ MasterRepresented tel' ∧
      (SlaveRepresented tel → SlaveRepresented tel') := by
  rw [Telegram.createMaster_reduce]
  rcases tel.createMaster_spec seq.reduce.seq with
    ⟨m, stored, seq', ht, hrun, -⟩ | ⟨type, master, nn, crc, e, he, -, hrun⟩
  · exact ⟨_, seq', hrun, fun _ => ⟨m, ht.reduce, rfl, rfl, ht.crc_stored.symm⟩, fun h => h⟩
  · exact ⟨_, _, hrun, .of_error e he rfl, fun h => h⟩

theorem createSlave_represented (tel : Telegram) (seq : Sequence) :
    ∃ tel' seq', tel.createSlave seq = .ok (tel', seq') ∧ SlaveRepresented tel' ∧
      (MasterRepresented tel → MasterRepresented tel') := by
  rw [Telegram.createSlave_reduce]
  rcases tel.createSlave_spec seq.reduce.seq with
    ⟨s, stored, seq', ht, hrun⟩ | ⟨slave, seq', nn, crc, e, he, -, hrun⟩
  · exact ⟨_, seq', hrun, fun _ => ⟨s, ht.reduce, rfl, ht.crc_stored.symm⟩, fun h => h⟩
  · exact ⟨_, _, hrun, .of_error e he rfl, fun h => h⟩

/-! ### Parsing, block by block -/

theorem ensures_createMaster {tel : Telegram} {seq : Sequence} {f : Telegram × Sequence →
    Except OutOfRange Telegram} (hslave : SlaveRepresented tel)
    (h : ∀ tel' seq', Represented tel' → Ensures (f (tel', seq')) Represented) :
    Ensures (tel.createMaster seq >>= f) Represented := by
  refine .bind fun r hr => ?_
  obtain ⟨tel', seq', hrun, hmaster, hkeep⟩ := createMaster_represented tel seq
  rw [hrun] at hr
  cases hr
  exact h tel' seq' ⟨hmaster, hkeep hslave⟩

theorem ensures_createSlave {tel : Telegram} {seq : Sequence} {f : Telegram × Sequence →
    Except OutOfRange Telegram} (hmaster : MasterRepresented tel)
    (h : ∀ tel' seq', Represented tel' → Ensures (f (tel', seq')) Represented) :
    Ensures (tel.createSlave seq >>= f) Represented := by
  refine .bind fun r hr => ?_
  obtain ⟨tel', seq', hrun, hslave, hkeep⟩ := createSlave_represented tel seq
  rw [hrun] at hr
  cases hr
  exact h tel' seq' ⟨hkeep hmaster, hslave⟩

theorem parseSlaveAgain_represented {tel : Telegram} (hmaster : MasterRepresented tel)
    (seq2 slave : Sequence) : Ensures (tel.parseSlaveAgain seq2 slave) Represented := by
  unfold Telegram.parseSlaveAgain
  refine .ite (fun _ => .pure ⟨hmaster, .of_error SEQ_ERR_SHORT (by decide) rfl⟩) fun _ => ?_
  refine .bind fun tmp _ => .bind fun state _ => ?_
  refine .ite (fun hstate => .pure ⟨hmaster, .of_error state hstate rfl⟩) fun _ => ?_
  refine .bind fun nn _ => .bind fun slave2 _ => ?_
  refine ensures_createSlave hmaster fun tel' _ h => ?_
  refine .ite (fun _ => .pure ⟨.of_error SEQ_ERR_ACK_MISS (by decide) rfl, h.slave⟩) fun _ => ?_
  refine .bind fun ack _ => ?_
  refine .ite (fun _ => .pure ⟨.of_error SEQ_ERR_ACK (by decide) rfl, h.slave⟩) fun _ => ?_
  refine .ite (fun _ => .pure ⟨h.master, .of_error SEQ_ERR_LONG (by decide) rfl⟩) fun _ => ?_
  refine .ite (fun _ => .pure ⟨h.master, .of_error SEQ_ERR_INVALID (by decide) rfl⟩) fun _ => ?_
  exact .pure ⟨h.master, h.slave⟩

theorem parseSlave_represented {tel : Telegram} (h : Represented tel) (seq : Sequence) (offset : Nat) :
    Ensures (tel.parseSlave seq offset) Represented := by
  unfold Telegram.parseSlave
  refine .ite (fun _ => .pure h) fun _ => ?_
  refine .bind fun seq2 _ => .bind fun state _ => ?_
  refine .ite (fun hstate => .pure ⟨h.master, .of_error state hstate rfl⟩) fun _ => ?_
  refine .bind fun nn _ => .bind fun slave _ => ?_
  refine ensures_createSlave h.master fun tel' slave h' => ?_
  refine .ite (fun _ => .pure h') fun _ => ?_
  refine .ite (fun _ => .pure ⟨.of_error SEQ_ERR_ACK_MISS (by decide) rfl, h'.slave⟩) fun _ => ?_
  refine .bind fun ack _ => ?_
  refine .ite (fun _ => .pure ⟨.of_error SEQ_ERR_ACK (by decide) rfl, h'.slave⟩) fun _ => ?_
  have hacked : Represented { tel' with masterACK := ack } := ⟨h'.master, h'.slave⟩
  exact .ite (fun _ => parseSlaveAgain_represented hacked.master seq2 slave) fun _ => .pure hacked

theorem parseMasterAgain_represented {tel : Telegram} (hslave : SlaveRepresented tel)
    (seq master : Sequence) : Ensures (tel.parseMasterAgain seq master) Represented := by
  unfold Telegram.parseMasterAgain
  refine .ite (fun _ => .pure ⟨.of_error SEQ_ERR_SHORT (by decide) rfl, hslave⟩) fun _ => ?_
  refine .bind fun tmp _ => .bind fun state _ => ?_
  refine .ite (fun hstate => .pure ⟨.of_error state hstate rfl, hslave⟩) fun _ => ?_
  refine .bind fun nn _ => .bind fun master2 _ => ?_
  refine ensures_createMaster hslave fun tel' _ h => ?_
  refine .ite (fun _ => .pure h) fun _ => ?_
  refine .ite (fun _ => .pure ⟨h.master, .of_error SEQ_ERR_ACK_MISS (by decide) rfl⟩) fun _ => ?_
  refine .bind fun ack _ => ?_
  refine .ite (fun _ => .pure ⟨h.master, .of_error SEQ_ERR_ACK (by decide) rfl⟩) fun _ => ?_
  refine .ite (fun _ => .ite (fun _ => .pure ⟨.of_error SEQ_ERR_LONG (by decide) rfl, h.slave⟩)
    fun _ => .pure ⟨.of_error SEQ_ERR_INVALID (by decide) rfl, h.slave⟩) fun _ => ?_
  have hacked : Represented { tel' with slaveACK := ack } := ⟨h.master, h.slave⟩
  exact parseSlave_represented hacked _ _

theorem parseAck_represented {tel : Telegram} (h : Represented tel) (seq master : Sequence) :
    Ensures (tel.parseAck seq master) Represented := by
  unfold Telegram.parseAck
  refine .ite (fun _ => .pure ⟨h.master, .of_error SEQ_ERR_ACK_MISS (by decide) rfl⟩) fun _ => ?_
  refine .bind fun ack _ => ?_
  refine .ite (fun _ => .pure ⟨h.master, .of_error SEQ_ERR_ACK (by decide) rfl⟩) fun _ => ?_
  have hacked : Represented { tel with slaveACK := ack } := ⟨h.master, h.slave⟩
  exact .ite (fun _ => parseMasterAgain_represented hacked.slave seq master) fun _ =>
    parseSlave_represented hacked _ _

theorem parseReduced_represented {tel : Telegram} (hslave : SlaveRepresented tel) (seq : Sequence) :
    Ensures (tel.parseReduced seq) Represented := by
  unfold Telegram.parseReduced
  refine .bind fun state _ => ?_
  refine .ite (fun hstate => .pure ⟨.of_error state hstate rfl, hslave⟩) fun _ => ?_
  refine .bind fun nn _ => .bind fun master _ => ?_
  refine ensures_createMaster hslave fun tel' master h => ?_
  refine .ite (fun _ => .pure h) fun _ => ?_
  exact .ite (fun _ => parseAck_represented h _ _) fun _ => parseSlave_represented h _ _

theorem parse_represented (tel : Telegram) (seq : Sequence) :
    ∃ tel', tel.parse seq = .ok (tel', seq.reduce) ∧ Represented tel' := by
  obtain ⟨tel', hrun, -⟩ := tel.parse_spec seq
  refine ⟨tel', hrun, ?_⟩
  have hclear : Represented tel.clear := represented_of_empty rfl rfl
  rw [Telegram.parse] at hrun
  rcases hreduced : tel.clear.parseReduced seq.reduce with e | tel''
  · rw [hreduced] at hrun
    cases hrun
  · rw [hreduced] at hrun
    cases hrun
    exact parseReduced_represented hclear.slave _ _ hreduced

/-! ### Sequences of calls -/

theorem apply_represented {tel : Telegram} (h : Represented tel) (op : Telegram.Op) :
    ∃ tel', tel.apply op = .ok tel' ∧ Represented tel' := by
  have hmaster (seq : Sequence) : ∃ tel', (tel.createMaster seq).map Prod.fst = .ok tel' ∧
      Represented tel' := by
    obtain ⟨tel', seq', hrun, hmaster, hkeep⟩ := createMaster_represented tel seq
    exact ⟨tel', by rw [hrun]; rfl, hmaster, hkeep h.slave⟩
  have hslave (seq : Sequence) : ∃ tel', (tel.createSlave seq).map Prod.fst = .ok tel' ∧
      Represented tel' := by
    obtain ⟨tel', seq', hrun, hslave, hkeep⟩ := createSlave_represented tel seq
    exact ⟨tel', by rw [hrun]; rfl, hkeep h.master, hslave⟩
  cases op with
  | construct => exact ⟨{}, rfl, represented_of_empty rfl rfl⟩
  | constructFrom seq =>
    obtain ⟨tel', hrun, hrep⟩ := parse_represented {} seq
    exact ⟨tel', by rw [Telegram.apply, Telegram.ofSequence, hrun]; rfl, hrep⟩
  | parse seq =>
    obtain ⟨tel', hrun, hrep⟩ := parse_represented tel seq
    exact ⟨tel', by rw [Telegram.apply, hrun]; rfl, hrep⟩
  | createMasterFrom src vec => exact hmaster _
  | createMaster seq => exact hmaster seq
  | createSlaveFrom vec => exact hslave _
  | createSlave seq => exact hslave seq
  | clear => exact ⟨_, rfl, represented_of_empty rfl rfl⟩
  | setSlaveACK byte | setMasterACK byte => exact ⟨_, rfl, h.master, h.slave⟩

/-- **A state `SEQ_OK` stands beside its part**: after any calls on a telegram, with any arguments and in any
order, all of which return. -/
theorem represented_of_ops (ops : List Telegram.Op) :
    ∃ tel, ops.foldlM Telegram.apply {} = .ok tel ∧ Represented tel :=
  foldlM_returns (fun _ op h => apply_represented h op) ops (represented_of_empty rfl rfl)

end EBusFsm

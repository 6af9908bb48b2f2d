import EBusFsm.Lib.Wired
import EBusFsm.Machine.Blocks

/-!
# The arbitration

When several participants write their address at once, all read the bitwise AND of the addresses. The
nibbles of master addresses form a chain under AND, so this is the address with the least of both nibbles.
`arbitration` says that at most one participant wins; and if none does and the bus stays free, exactly the
participants with the least low nibble try again, and one of them wins. What it takes from the general facts
about a wired bus is in `Wired`.
-/

namespace EBusFsm

open Prog

/-! ### Master addresses -/

/-- The low nibble, which decides first, and the high nibble. -/
def nibbles (byte : Byte) : Nat × Nat := ((byte &&& 0x0f).toNat, (byte &&& 0xf0).toNat)

theorem nibbles_injective : Function.Injective nibbles := by
  intro a b h
  have hbyte : ∀ b : Byte, b = (b &&& 0x0f) ||| (b &&& 0xf0) := forall_byte (by decide +kernel)
  obtain ⟨hlow, hhigh⟩ := Prod.mk.inj h
  rw [hbyte a, hbyte b, UInt8.toNat_inj.1 hlow, UInt8.toNat_inj.1 hhigh]

/-- The nibbles of a master address. -/
def masterNibbles : List Byte := [0x00, 0x01, 0x03, 0x07, 0x0f]

def masters : List Byte :=
  masterNibbles.flatMap fun high : Byte => masterNibbles.map fun low : Byte => high <<< 4 ||| low

theorem mem_masters {byte : Byte} (h : isMaster byte = true) : byte ∈ masters := by
  have hall : ∀ byte, isMaster byte = true → byte ∈ masters := forall_byte (by decide +kernel)
  exact hall byte h

/-- The byte on the bus when two participants write. -/
def wiredAnd (a b : Byte) : Byte := a &&& b

instance : Std.Commutative wiredAnd := ⟨UInt8.and_comm⟩

instance : Std.Associative wiredAnd := ⟨UInt8.and_assoc⟩

/-- AND takes the least of each nibble. -/
theorem isMaster_wiredAnd {a b : Byte} (ha : isMaster a = true) (hb : isMaster b = true) :
    isMaster (wiredAnd a b) = true ∧ nibbles (wiredAnd a b) = nibbles a ⊓ nibbles b := by
  have hall : ∀ a ∈ masters, ∀ b ∈ masters,
      isMaster (wiredAnd a b) = true ∧ nibbles (wiredAnd a b) = nibbles a ⊓ nibbles b := by decide +kernel
  exact hall a (mem_masters ha) b (mem_masters hb)

theorem wiredAnd_ff (byte : Byte) : wiredAnd byte 0xff = byte := by
  revert byte
  exact forall_byte (by decide +kernel)

/-! ### Hearing a byte -/

/-- The handler of the state reads one byte from the bus. -/
def hear (state : State) (impl : EbusImpl) (byte : Byte) : Except Stop State × World :=
  exec (handler state) { impl, env := { reads := [.byte byte] } }

/-- What the actions of other threads leave alone between two handlers. -/
structure Undisturbed (impl impl' : EbusImpl) : Prop where
  sequence : impl'.sequence = impl.sequence
  lockCounter : impl'.lockCounter = impl.lockCounter
  activeMessage : impl'.activeMessage = impl.activeMessage

theorem hear_lockBus {impl : EbusImpl} {message : Message} {qq : Byte} {rest : List Byte}
    (hactive : impl.activeMessage = some message) (hqq : message.telegram.master.seq = qq :: rest)
    (byte : Byte) :
    hear .lockBus impl byte =
      (.ok (if byte = qq then .sendMessage else .monitorBus),
        { impl :=
            { impl with lockCounter := if byte = qq then impl.lockCounter else lostLock impl qq byte }
          env := {}
          events := [.wrote qq, .got byte] }) := by
  let impl' : EbusImpl :=
    { impl with lockCounter := if byte = qq then impl.lockCounter else lostLock impl qq byte }
  have hwp : wp lockBus (fun next w => next = (if byte = qq then .sendMessage else .monitorBus) ∧
      w = { impl := impl', env := {}, events := [.wrote qq, .got byte] })
      (fun _ _ => False) { impl, env := { reads := [.byte byte] } } := by
    simp only [lockBus, wp_bind, wp_getImpl, hactive, wp_deref_some, Telegram.getMasterQQ_eq hqq,
      wp_liftRange_ok]
    rw [wp_write_ok _ _ _ _ rfl, wp_read_byte 0 10000 _ _ _ byte [] rfl]
    by_cases hbyte : byte = qq
    · simp [hbyte, impl', World.got, World.wrote]
    · simp only [hbyte, ne_eq, not_false_eq_true, if_true, if_false, wp_bind, wp_ite, wp_modifyImpl, wp_pure,
        impl', lostLock]
      exact ⟨fun hlow => ⟨trivial, by simp [hlow, World.got, World.wrote]⟩,
        fun hlow => ⟨trivial, by simp [hlow, World.got, World.wrote]⟩⟩
  obtain ⟨next, w, hexec, rfl, rfl⟩ := exists_of_wp hwp
  exact hexec

/-- A synchronization byte in `monitorBus`. -/
theorem hear_syn (impl : EbusImpl) : ∃ active w,
    hear .monitorBus impl seqSyn =
      (.ok (if active.isSome ∧ syncedLock impl = 0 then .lockBus else .monitorBus), w) ∧
    w.impl.activeMessage = active ∧
    ∀ message, impl.activeMessage = some message → active = some message := by
  let Q (next : State) (w : World) : Prop := ∃ active,
    next = (if active.isSome ∧ syncedLock impl = 0 then .lockBus else .monitorBus) ∧
      w.impl.activeMessage = active ∧ ∀ message, impl.activeMessage = some message → active = some message
  have hwp : wp monitorBus Q (fun _ _ => False) { impl, env := { reads := [.byte seqSyn] } } := by
    rw [monitorBus, wp_bind, wp_read_byte 1 0 _ _ _ seqSyn [] rfl, if_pos rfl]
    refine wp_handleSyn _ _ _ fun active queue evs seq hqueue _ _ _ => ⟨active, rfl, rfl, fun message hm => ?_⟩
    cases hqueue with
    | keep => exact hm
    | take _ _ hnone => cases hm.symm.trans hnone
  obtain ⟨next, w, hexec, active, rfl, hactive, hkeep⟩ := exists_of_wp hwp
  exact ⟨active, w, hexec, hactive, hkeep⟩

/-- A first byte in `monitorBus`. -/
theorem hear_first {impl : EbusImpl} (hempty : impl.sequence.seq = []) {byte : Byte}
    (hbyte : byte ≠ seqSyn) : ∃ w, hear .monitorBus impl byte = (.ok .monitorBus, w) ∧
      w.impl.sequence = ⟨[byte], true⟩ := by
  let Q (next : State) (w : World) : Prop := next = .monitorBus ∧ w.impl.sequence = ⟨[byte], true⟩
  have hpush : impl.sequence.pushBack byte = ⟨[byte], true⟩ := by
    rw [Sequence.pushBack, hempty]
    rfl
  have hwp : wp monitorBus Q (fun _ _ => False) { impl, env := { reads := [.byte byte] } } := by
    rw [monitorBus, wp_bind, wp_read_byte 1 0 _ _ _ byte [] rfl, if_neg hbyte]
    simp only [wp_bind, wp_setSequence, wp_getImpl, World.got, hpush]
    exact ⟨rfl, rfl⟩
  obtain ⟨next, w, hexec, rfl, hseq⟩ := exists_of_wp hwp
  exact ⟨w, hexec, hseq⟩

/-! ### The property -/

/-- `lockBus` wins the arbitration. -/
def Wins (impl : EbusImpl) (byte : Byte) : Prop := (hear .lockBus impl byte).1 = .ok .sendMessage

/-- `monitorBus` enters `lockBus` at a synchronization byte. -/
def Retries (impl : EbusImpl) : Prop := (hear .monitorBus impl seqSyn).1 = .ok .lockBus

instance (impl : EbusImpl) : Decidable (Retries impl) :=
  inferInstanceAs (Decidable ((hear .monitorBus impl seqSyn).1 = .ok .lockBus))

section Contest

variable {ι : Type} {S : Finset ι} {address : ι → Byte} {start : ι → System} {byte : Byte}

/-- The participants of `S` write at once, and each of them reads the AND of what they write. -/
def OnBus (S : Finset ι) (impl : ι → EbusImpl) (byte : Byte) : Prop :=
  byte = S.fold wiredAnd 0xff fun i =>
    (wroteBytes (hear .lockBus (impl i) byte).2.events).headD 0xff

/-- Participants with different master addresses that enter `lockBus`. -/
structure Contenders (S : Finset ι) (address : ι → Byte) (start : ι → System) : Prop where
  reachable : ∀ i ∈ S, ∃ as,
    Run System.step (fun _ _ => True) (System.init (address i)) as (start i)
  locking : ∀ i ∈ S, (start i).control = .loop .lockBus
  master : ∀ i ∈ S, isMaster (address i) = true
  distinct : Set.InjOn address S
  lockCounterMax : ∀ i ∈ S, 2 ≤ (start i).impl.lockCounterMax

/-- The participants between `lockBus` and the next byte. -/
def Waiting (S : Finset ι) (start : ι → System) (byte : Byte) (next : ι → EbusImpl) : Prop :=
  ∀ i ∈ S, Undisturbed (hear .lockBus (start i).impl byte).2.impl (next i)

/-- What happens when nobody won and the next byte is a synchronization byte: the participants with the least
low nibble try again, nobody else does, and one of them wins. -/
structure Resolved (S : Finset ι) (address : ι → Byte) (start : ι → System) (byte : Byte) : Prop where
  waits : ∀ i ∈ S, (hear .lockBus (start i).impl byte).1 = .ok .monitorBus
  retries : ∀ next, Waiting S start byte next → ∀ i ∈ S,
    (Retries (next i) ↔ ∀ j ∈ S, (nibbles (address i)).1 ≤ (nibbles (address j)).1)
  bystanders : ∀ impl impl' : EbusImpl, impl.sequence.seq = [] →
    Undisturbed (hear .monitorBus impl byte).2.impl impl' →
    (hear .monitorBus impl byte).1 = .ok .monitorBus ∧ ¬ Retries impl'
  wins : ∀ next last, Waiting S start byte next →
    (∀ i ∈ S, Undisturbed (hear .monitorBus (next i) seqSyn).2.impl (last i)) →
    ∀ byte', OnBus (S.filter fun i => Retries (next i)) last byte' →
      ∃! i, i ∈ S ∧ Retries (next i) ∧ Wins (last i) byte'

/-! ### One participant -/

/-- The active message starts with the address. -/
def Locked (impl : EbusImpl) (qq : Byte) : Prop :=
  ∃ message rest, impl.activeMessage = some message ∧ message.telegram.master.seq = qq :: rest

theorem Locked.of_active {impl impl' : EbusImpl} {qq : Byte} (h : Locked impl qq)
    (hactive : impl'.activeMessage = impl.activeMessage) : Locked impl' qq := by
  obtain ⟨message, rest, hmessage, hqq⟩ := h
  exact ⟨message, rest, hactive.trans hmessage, hqq⟩

theorem Locked.wins_iff {impl : EbusImpl} {qq : Byte} (h : Locked impl qq) :
    Wins impl byte ↔ byte = qq := by
  obtain ⟨message, rest, hactive, hqq⟩ := h
  unfold Wins
  rw [hear_lockBus hactive hqq]
  by_cases hbyte : byte = qq <;> simp [hbyte]

/-- A participant that lost. -/
theorem Locked.lost {impl : EbusImpl} {qq : Byte} (h : Locked impl qq) (hbyte : byte ≠ qq) :
    (hear .lockBus impl byte).1 = .ok .monitorBus ∧
      (hear .lockBus impl byte).2.impl = { impl with lockCounter := lostLock impl qq byte } := by
  obtain ⟨message, rest, hactive, hqq⟩ := h
  rw [hear_lockBus hactive hqq, if_neg hbyte, if_neg hbyte]
  exact ⟨rfl, rfl⟩

theorem Locked.wrote {impl : EbusImpl} {qq : Byte} (h : Locked impl qq) :
    (wroteBytes (hear .lockBus impl byte).2.events).headD 0xff = qq := by
  obtain ⟨message, rest, hactive, hqq⟩ := h
  rw [hear_lockBus hactive hqq]
  rfl

/-- A participant with a message and an empty `m_sequence` goes by its lock counter. -/
theorem Locked.retries_iff {impl : EbusImpl} {qq : Byte} (h : Locked impl qq)
    (hempty : impl.sequence.seq = []) : Retries impl ↔ countedLock impl = 0 := by
  obtain ⟨message, rest, hactive, -⟩ := h
  obtain ⟨active, w, hhear, -, hkeep⟩ := hear_syn impl
  obtain rfl := hkeep message hactive
  have hsize : impl.sequence.size = 0 := by
    rw [Sequence.size, hempty]
    rfl
  have hsynced : syncedLock impl = countedLock impl := by
    unfold syncedLock
    rw [if_neg (not_not.2 hsize)]
  unfold Retries
  rw [hhear, hsynced]
  by_cases hlock : countedLock impl = 0 <;> simp [hlock]

/-- A synchronization byte leaves the active message alone. -/
theorem Locked.hear_syn {impl : EbusImpl} {qq : Byte} (h : Locked impl qq) :
    Locked (hear .monitorBus impl seqSyn).2.impl qq := by
  obtain ⟨message, rest, hactive, hqq⟩ := h
  obtain ⟨active, w, hhear, hactive', hkeep⟩ := EBusFsm.hear_syn impl
  rw [hhear]
  exact ⟨message, rest, hactive'.trans (hkeep message hactive), hqq⟩

/-- A bystander holds back: it counts the byte as a collision. -/
theorem not_retries_bystander {impl impl' : EbusImpl} (hempty : impl.sequence.seq = [])
    (hmaster : isMaster byte = true) (h : Undisturbed (hear .monitorBus impl byte).2.impl impl') :
    (hear .monitorBus impl byte).1 = .ok .monitorBus ∧ ¬ Retries impl' := by
  have hreserved := not_reserved_of_isMaster hmaster
  obtain ⟨w, hhear, hseq⟩ := hear_first hempty fun hsyn => hreserved (.inl hsyn)
  rw [hhear] at h ⊢
  refine ⟨rfl, ?_⟩
  have hseq' : impl'.sequence = ⟨[byte], true⟩ := h.sequence.trans hseq
  have hreduce : impl'.sequence.reduce.size = 1 := by
    have hplain : Plain [byte] := by
      intro b hb
      rw [List.mem_singleton.1 hb]
      exact hreserved
    rw [hseq']
    show (reduceBytes [byte]).length = 1
    rw [reduceBytes_of_plain hplain]
    rfl
  have hlock : syncedLock impl' ≠ 0 := by
    have hsize : impl'.sequence.size ≠ 0 := by
      rw [hseq']
      exact Nat.one_ne_zero
    unfold syncedLock decodedLock
    rw [if_pos hsize, hreduce]
    split_ifs with hlow
    · decide
    · omega
  obtain ⟨active, w', hhear', -, -⟩ := hear_syn impl'
  unfold Retries
  rw [hhear', if_neg fun h => hlock h.2]
  exact nofun

/-! ### All participants -/

theorem Contenders.locked (h : Contenders S address start) {i : ι} (hi : i ∈ S) :
    Locked (start i).impl (address i) := by
  obtain ⟨as, hrun⟩ := h.reachable i hi
  have hsound := sound_of_run hrun
  have hready := hsound.control
  rw [h.locking i hi] at hready
  obtain ⟨message, qq, rest, hactive, hqq⟩ := hready
  have hm : message ∈ (start i).impl.held := by simp [EbusImpl.held, hactive]
  obtain ⟨request, m, ht, -, -⟩ := hsound.carries message (mem_messages_of_held hm)
  obtain ⟨rest', hseq⟩ := ht.stored_eq
  refine ⟨message, m.zz :: rest', hactive, ?_⟩
  rw [hseq, ht.qq_eq]

/-- `lockBus` is entered with `m_sequence` empty. -/
theorem Contenders.cleared (h : Contenders S address start) {i : ι} (hi : i ∈ S) :
    (start i).impl.sequence.seq = [] := by
  obtain ⟨as, hrun⟩ := h.reachable i hi
  have hcleared := cleared_of_run hrun
  rw [h.locking i hi] at hcleared
  exact hcleared rfl

/-- The byte that all read is the least address, nibble by nibble. -/
theorem OnBus.level {impl : ι → EbusImpl} (hbus : OnBus S impl byte)
    (hlocked : ∀ i ∈ S, Locked (impl i) (address i)) (hmaster : ∀ i ∈ S, isMaster (address i) = true)
    (hne : S.Nonempty) :
    isMaster byte = true ∧ nibbles byte = Wired.level S hne fun i => nibbles (address i) := by
  have hfold : byte = S.fold wiredAnd 0xff address := by
    refine hbus.trans (Finset.fold_congr fun i hi => ?_)
    exact (hlocked i hi).wrote
  rw [hfold]
  exact Wired.fold_eq_level wiredAnd (fun b => isMaster b = true) nibbles
    (fun _ _ ha hb => (isMaster_wiredAnd ha hb).1) (fun _ _ ha hb => (isMaster_wiredAnd ha hb).2)
    wiredAnd_ff hmaster hne

/-- A participant that lost goes on with the lock counter of `lockBus`. -/
theorem Contenders.waiting (h : Contenders S address start) (hno : ∀ i ∈ S, ¬ Wins (start i).impl byte)
    {next : ι → EbusImpl} (hnext : Waiting S start byte next) {i : ι} (hi : i ∈ S) :
    Locked (next i) (address i) ∧
      (Retries (next i) ↔ byte &&& 0x0f = address i &&& 0x0f) := by
  have hlocked := h.locked hi
  have hbyte : byte ≠ address i := fun heq => hno i hi (hlocked.wins_iff.2 heq)
  obtain ⟨-, himpl⟩ := hlocked.lost hbyte
  have hundisturbed := hnext i hi
  rw [himpl] at hundisturbed
  have hlocked' := hlocked.of_active hundisturbed.activeMessage
  refine ⟨hlocked', ?_⟩
  rw [hlocked'.retries_iff (by rw [hundisturbed.sequence]; exact h.cleared hi)]
  have hlock : (next i).lockCounter = lostLock (start i).impl (address i) byte := hundisturbed.lockCounter
  have hmax := h.lockCounterMax i hi
  unfold countedLock
  rw [hlock]
  unfold lostLock
  by_cases hlow : byte &&& 0x0f = address i &&& 0x0f
  · simp [hlow]
  · rw [if_pos hlow, if_pos (by omega)]
    exact iff_of_false (by omega) hlow

theorem nibbles_fst_eq_iff (a b : Byte) : (nibbles a).1 = (nibbles b).1 ↔ a &&& 0x0f = b &&& 0x0f :=
  UInt8.toNat_inj

/-- **At most one participant wins the arbitration**, whatever their number; and if none does and the bus
stays free, the participants with the least low nibble try again, nobody else does, and exactly one of them
wins. Between the two rounds there are the handlers only: nobody calls `close`, and no device fails. -/
theorem arbitration {S : Finset ι} {address : ι → Byte} {start : ι → System} {byte : Byte}
    (hne : S.Nonempty) (h : Contenders S address start) (hbus : OnBus S (fun i => (start i).impl) byte) :
    (∀ i ∈ S, ∀ j ∈ S, Wins (start i).impl byte → Wins (start j).impl byte → i = j) ∧
      ((∀ i ∈ S, ¬ Wins (start i).impl byte) → Resolved S address start byte) := by
  obtain ⟨hmaster, hlevel⟩ := hbus.level (fun i hi => h.locked hi) h.master hne
  have hinj : Set.InjOn (fun i => nibbles (address i)) S := fun i hi j hj heq =>
    h.distinct hi hj (nibbles_injective heq)
  have hretries : ∀ next, Waiting S start byte next → (∀ i ∈ S, ¬ Wins (start i).impl byte) → ∀ i ∈ S,
      (Retries (next i) ↔ i ∈ Wired.survivors S fun i => nibbles (address i)) := by
    intro next hnext hno i hi
    rw [(h.waiting hno hnext hi).2, Wired.mem_survivors_iff hne hi, ← hlevel, ← nibbles_fst_eq_iff, eq_comm]
  refine ⟨fun i hi j hj hwin hwin' => ?_, fun hno => ⟨fun i hi => ?_, fun next hnext i hi => ?_, ?_, ?_⟩⟩
  · apply h.distinct hi hj
    rw [← (h.locked hi).wins_iff.1 hwin, (h.locked hj).wins_iff.1 hwin']
  · exact ((h.locked hi).lost fun heq => hno i hi ((h.locked hi).wins_iff.2 heq)).1
  · rw [hretries next hnext hno i hi, Wired.survivors, Finset.mem_filter, and_iff_right hi]
  · exact fun impl impl' hempty hundisturbed => not_retries_bystander hempty hmaster hundisturbed
  · intro next last hnext hlast byte' hbus'
    have hagain : (S.filter fun i => Retries (next i)) =
        Wired.survivors S fun i => nibbles (address i) := by
      ext i
      rw [Finset.mem_filter]
      constructor
      · rintro ⟨hi, hretry⟩
        exact (hretries next hnext hno i hi).1 hretry
      · intro hi
        have hiS := Wired.survivors_subset hi
        exact ⟨hiS, (hretries next hnext hno i hiS).2 hi⟩
    rw [hagain] at hbus'
    have hlocked : ∀ i ∈ Wired.survivors S fun i => nibbles (address i), Locked (last i) (address i) := by
      intro i hi
      have hiS := Wired.survivors_subset hi
      exact (h.waiting hno hnext hiS).1.hear_syn.of_active (hlast i hiS).activeMessage
    obtain ⟨-, hlevel'⟩ := hbus'.level hlocked (fun i hi => h.master i (Wired.survivors_subset hi))
      (Wired.survivors_nonempty hne)
    have hwins : ∀ i ∈ Wired.survivors S fun i => nibbles (address i),
        (Wins (last i) byte' ↔ nibbles (address i) = nibbles byte') := by
      intro i hi
      rw [(hlocked i hi).wins_iff, nibbles_injective.eq_iff, eq_comm]
    obtain ⟨i, ⟨hi, hwinner⟩, hunique⟩ := Wired.existsUnique_winner hne hinj
    have hiS := Wired.survivors_subset hi
    refine ⟨i, ⟨hiS, (hretries next hnext hno i hiS).2 hi, (hwins i hi).2 (hwinner.trans hlevel'.symm)⟩, ?_⟩
    rintro j ⟨hjS, hretry, hwin⟩
    have hj := (hretries next hnext hno j hjS).1 hretry
    exact hunique j ⟨hj, ((hwins j hj).1 hwin).trans hlevel'⟩

end Contest

/-- The masters `10` and `01`, each with a broadcast. -/
def sampleMaster : Bool → Master
  | false => .ofCheck 0x10 0xfe 0xb5 0x05 [0x27] (.refl true)
  | true => .ofCheck 0x01 0xfe 0xb5 0x05 [0x27] (.refl true)

/-- The master's broadcast meets a free bus. -/
def contend (m : Master) : List Action :=
  [.setLockCounterMax 2] ++ handlers [[0xaa]] ++
    [.transmit m.bytes.tail, .enqueue ⟨1, bareTelegram m, 0⟩] ++ handlers [[0xaa], [0xaa]]

/-- The masters `10` and `01` write at once; the byte `00` is read, and nobody wins. -/
theorem arbitration_sample : ∃ start : Bool → System,
    (∀ i, execute System.step (fun _ _ => true) (System.init (sampleMaster i).qq)
      (contend (sampleMaster i)) = some (start i)) ∧
    Resolved Finset.univ (fun i => (sampleMaster i).qq) start 0x00 := by
  have hrun : ∀ i, (execute System.step (fun _ _ => true) (System.init (sampleMaster i).qq)
      (contend (sampleMaster i))).map (fun s => (s.control, s.impl.lockCounterMax)) =
        some (.loop .lockBus, 2) := by decide +kernel
  choose start hstart hobserved using fun i => Option.map_eq_some_iff.1 (hrun i)
  have hcontenders : Contenders Finset.univ (fun i => (sampleMaster i).qq) start := by
    refine ⟨fun i _ => ⟨_, run_of_execute (fun _ _ _ => trivial) (hstart i)⟩, fun i _ => ?_, fun i _ => ?_,
      ?_, fun i _ => ?_⟩
    · exact (Prod.mk.inj (hobserved i)).1
    · exact (sampleMaster i).source
    · intro i _ j _
      revert i j
      decide
    · rw [(Prod.mk.inj (hobserved i)).2]
  have hbus : OnBus Finset.univ (fun i => (start i).impl) 0x00 := by
    unfold OnBus
    rw [Finset.fold_congr fun i hi => (hcontenders.locked hi).wrote]
    decide
  refine ⟨start, hstart, (arbitration Finset.univ_nonempty hcontenders hbus).2 fun i hi hwin => ?_⟩
  have hbyte : ∀ i, 0x00 ≠ (sampleMaster i).qq := by decide
  exact hbyte i ((hcontenders.locked hi).wins_iff.1 hwin)

end EBusFsm

import EBusFsm.Machine.Custody
import EBusFsm.Machine.Reception

/-!
# What the application sees of a part

A part reaches a telegram in three ways: `createMaster` and `createSlave` get it without its CRC, they
get it with its CRC, or `parse` finds it in a stream. The application gets the bytes that are stored
then, as an argument of a callback or as the response of `transmit`.

A part without CRC is stored as it was given. For a part with CRC both calls compute `crc` of the
stored sequence, which leaves it extended (`Sequence.crc_snd`), and `parse` uses the same calls; so the
application finds two bytes in the place of every synchronization or expand byte. `application_bytes`
says this for each way, and for each place where the bytes are handed on: the bytes are those of the part
exactly if it came without CRC or nothing in it is escaped. A part without CRC and without data is too short
to be accepted.
-/

namespace EBusFsm

/-! ### The ways -/

/-- The sequence in which a part is given: alone or with its CRC, reduced or extended. -/
def given (part : List Byte) (crc extended : Bool) : Sequence :=
  let bytes := if crc then part ++ [crcOf part] else part
  if extended then ⟨extendBytes bytes, true⟩ else ⟨bytes, false⟩

theorem given_reduce (part : List Byte) (crc extended : Bool) :
    (given part crc extended).reduce.seq = if crc then part ++ [crcOf part] else part := by
  unfold given
  cases extended
  · rfl
  · exact reduceBytes_extendBytes _

/-- The telegram accepted the master part, and `getMaster().get_sequence()` is its bytes. -/
def Telegram.ShowsMaster (tel : Telegram) (m : Master) : Prop :=
  tel.masterState = SEQ_OK ∧ tel.master.seq = m.bytes

/-- The telegram accepted the slave part, and `getSlave().get_sequence()` is its bytes. -/
def Telegram.ShowsSlave (tel : Telegram) (s : Slave) : Prop :=
  tel.slaveState = SEQ_OK ∧ tel.slave.seq = s.bytes

/-- The condition under which a part shows its bytes. -/
def Shown (part data : List Byte) (crc : Bool) : Prop := if crc then Plain part else data ≠ []

/-- A part is stored as its own bytes if it came without CRC, or if nothing in it is escaped. -/
theorem Master.Text.seq_eq_iff {m : Master} {l : List Byte} {stored : Sequence} (h : m.Text l stored) :
    stored.seq = m.bytes ↔ l = m.bytes ∨ Plain m.bytes := by
  cases h with
  | bare hm => exact iff_of_true rfl (.inl rfl)
  | full =>
    have hne : m.frame ≠ m.bytes := by simp [Master.frame]
    exact (extendBytes_eq_self_iff m.bytes).trans (or_iff_right hne).symm

theorem Slave.Text.seq_eq_iff {s : Slave} {l : List Byte} {stored : Sequence} (h : s.Text l stored) :
    stored.seq = s.bytes ↔ l = s.bytes ∨ Plain s.bytes := by
  cases h with
  | bare hs => exact iff_of_true rfl (.inl rfl)
  | full =>
    have hne : s.frame ≠ s.bytes := by simp [Slave.frame]
    exact (extendBytes_eq_self_iff s.bytes).trans (or_iff_right hne).symm

/-- When a telegram shows the master part, for each way in which it gets there. -/
structure MasterBytes (tel : Telegram) (m : Master) : Prop where
  created : ∀ crc extended, ∃ tel' seq,
    tel.createMaster (given m.bytes crc extended) = .ok (tel', seq) ∧
      (tel'.ShowsMaster m ↔ Shown m.bytes m.data crc)
  createdFrom : ∀ crc, ∃ tel' seq,
    tel.createMasterFrom m.qq (given m.bytes crc false).seq.tail = .ok (tel', seq) ∧
      (tel'.ShowsMaster m ↔ Shown m.bytes m.data crc)
  parsed : ∀ seq s, Accepted seq.reduce.seq m s → ∃ tel',
    tel.parse seq = .ok (tel', seq.reduce) ∧ (tel'.ShowsMaster m ↔ Plain m.bytes)

/-- When a telegram shows the slave part, for each way in which it gets there. -/
structure SlaveBytes (tel : Telegram) (s : Slave) : Prop where
  created : ∀ crc extended, ∃ tel' seq,
    tel.createSlave (given s.bytes crc extended) = .ok (tel', seq) ∧
      (tel'.ShowsSlave s ↔ Shown s.bytes s.data crc)
  createdFrom : ∀ crc, ∃ tel' seq,
    tel.createSlaveFrom (given s.bytes crc false).seq = .ok (tel', seq) ∧
      (tel'.ShowsSlave s ↔ Shown s.bytes s.data crc)
  parsed : ∀ seq m, Accepted seq.reduce.seq m (some s) → ∃ tel',
    tel.parse seq = .ok (tel', seq.reduce) ∧ (tel'.ShowsSlave s ↔ Plain s.bytes)

/-- When a handler hands on the bytes of parts that arrived over the bus with their CRC, or were answered by
the callback. -/
structure HandedBytes (m : Master) (s : Slave) : Prop where
  /-- By `processMessage`. -/
  processed : ∀ w : World, w.impl.processing = true → w.impl.sequence.reduce.seq = m.frame →
    ∃ state w' bytes, Prog.exec processMessage w = (.ok state, w') ∧
      w'.events = w.events ++ [.processed bytes] ∧ (bytes = m.bytes ↔ Plain m.bytes)
  /-- By `monitorBus`, a telegram with or without a slave part. -/
  overheard : ∀ (w : World) (s' : Option Slave), Accepted w.impl.sequence.reduce.seq m s' →
    ∃ w' first second, Prog.exec decodeSequence w = (.ok ⟨⟩, w') ∧
      w'.events = w.events ++ [.published first second] ∧ (first = m.bytes ↔ Plain m.bytes) ∧
      (s' = none → second = []) ∧ (s' = some s → (second = s.bytes ↔ Plain s.bytes))
  /-- By `receiveMessage`. -/
  received : ∀ (w : World) (qq zz : Byte) (r : List Byte) (rest : List RecvResult),
    w.impl.sequence = ⟨[qq, zz], true⟩ → Framed (qq :: zz :: r) → w.env.reads = r.map .byte ++ rest →
    reduceBytes (qq :: zz :: r) = m.frame → m.type ≠ .MS →
    Prog.wp receiveMessage
      (fun _ w' => ∃ acked first, w'.events = w.events ++ (r.map .got ++ acked) ++ [.published first []] ∧
        (first = m.bytes ↔ Plain m.bytes))
      (fun _ _ => True) w
  /-- By `sendResponse`, the message and the answer of `processMessage`. -/
  answered : ∀ (w w₁ w₂ : World) (env : Env) (state : State) (crc : Bool),
    w.impl.sequence.reduce.seq = m.frame → w.env.response = (given s.bytes crc false).seq →
    Prog.exec processMessage w = (.ok .sendResponse, w₁) →
    Prog.exec sendResponse { w₁ with env } = (.ok state, w₂) →
    ∃ evs first second, w₂.events =
        w₁.events ++ evs ++ .published first second :: resetEvents w.impl.activeMessage ∧
      (first = m.bytes ↔ Plain m.bytes) ∧ (second = s.bytes ↔ Shown s.bytes s.data crc)
  /-- To the active message, by `receiveResponse`. -/
  responded : ∀ (w : World) (message : Message) (raw : List Byte) (retry : Nat),
    w.impl.activeMessage = some message → reduceBytes raw = s.frame →
    Prog.wp (acknowledgeResponse retry ⟨raw, true⟩)
      (fun _ w' => ∃ message', w'.impl.activeMessage = some message' ∧ message'.id = message.id ∧
        (message'.telegram.ShowsSlave s ↔ Plain s.bytes))
      (fun _ _ => True) w

/-- The telegram has no slave part yet, or one that was read from the bus and acknowledged. -/
def Filled (log : List Event) (tel : Telegram) : Prop :=
  tel.slave.seq = [] ∨ ∃ (before after : List Event) (raw : List Byte) (x : Byte) (s : Slave),
    log = before ++ (raw.map .got ++ [.wrote seqAck, .got x]) ++ after ∧
    s.Text (reduceBytes raw) tel.slave ∧
    (tel.slave.seq = s.bytes ↔ reduceBytes raw = s.bytes ∨ Plain s.bytes)

/-- What `reset` publishes for the messages of `transmit` calls, and what the calls return. -/
structure ReturnedBytes (address : Byte) (s : System) : Prop where
  published : ∀ message ∈ s.completed, ∃ before after, s.log = before ++ finish message ++ after
  request : ∀ message ∈ s.completed, ∃ (request : List Byte) (m : Master),
    m.Text (address :: request) message.telegram.master ∧
    (message.telegram.master.seq = m.bytes ↔ address :: request = m.bytes ∨ Plain m.bytes)
  response : ∀ message ∈ s.completed, message.state = 0 → Filled s.log message.telegram
  returned : ∀ ret ∈ s.returned, ret.id ≠ 0 → ∃ message ∈ s.completed, message.id = ret.id ∧
    message.Carries address ret.request ∧ ret.result = message.state ∧
    ret.response = message.telegram.slave.seq

/-! ### The master part -/

theorem createMaster_shows (tel : Telegram) (m : Master) (crc : Bool) {seq : Sequence}
    (hseq : seq.reduce.seq = if crc then m.frame else m.bytes) :
    ∃ tel' seq', tel.createMaster seq = .ok (tel', seq') ∧
      (tel'.ShowsMaster m ↔ Shown m.bytes m.data crc) := by
  rw [Telegram.createMaster_reduce, hseq]
  unfold Shown
  cases crc with
  | true =>
    have hrun := tel.createMaster_full m m.crc
    rw [if_pos rfl] at hrun
    refine ⟨_, _, hrun, ?_⟩
    rw [if_pos rfl, ← extendBytes_eq_self_iff]
    exact and_iff_right rfl
  | false =>
    by_cases hm : m.data = []
    · -- five bytes are too short
      obtain ⟨e, he, hrun⟩ := tel.createMaster_reject m.bytes
        (fun m' h => Master.bytes_injective h ▸ hm)
        fun m' c h => nomatch (Master.bytes_append_inj ((List.append_nil _).trans h)).2
      refine ⟨_, _, hrun, ?_⟩
      rw [if_neg Bool.false_ne_true]
      exact iff_of_false (fun h => he h.1) (not_not.2 hm)
    · refine ⟨_, _, tel.createMaster_bare m hm, ?_⟩
      rw [if_neg Bool.false_ne_true]
      exact iff_of_true ⟨rfl, rfl⟩ hm

theorem Decoded.showsMaster {tel : Telegram} {m : Master} {s : Option Slave} (h : Decoded tel m s) :
    tel.ShowsMaster m ↔ Plain m.bytes := by
  unfold Telegram.ShowsMaster
  rw [h.master, ← extendBytes_eq_self_iff]
  exact and_iff_right h.masterState

theorem masterBytes (tel : Telegram) (m : Master) : MasterBytes tel m where
  created crc extended := createMaster_shows tel m crc (given_reduce m.bytes crc extended)
  createdFrom crc := by
    rw [createMasterFrom_eq]
    apply createMaster_shows tel m crc
    cases crc <;> rfl
  parsed seq s h := by
    obtain ⟨tel', hrun, -, haccept⟩ := tel.parse_spec seq
    exact ⟨tel', hrun, (haccept m s h).2.showsMaster⟩

/-! ### The slave part -/

theorem createSlave_shows (tel : Telegram) (s : Slave) (crc : Bool) {seq : Sequence}
    (hseq : seq.reduce.seq = if crc then s.frame else s.bytes) :
    ∃ tel' seq', tel.createSlave seq = .ok (tel', seq') ∧
      (tel'.ShowsSlave s ↔ Shown s.bytes s.data crc) := by
  rw [Telegram.createSlave_reduce, hseq]
  unfold Shown
  cases crc with
  | true =>
    have hrun := tel.createSlave_full s s.crc
    rw [if_pos rfl] at hrun
    refine ⟨_, _, hrun, ?_⟩
    rw [if_pos rfl, ← extendBytes_eq_self_iff]
    exact and_iff_right rfl
  | false =>
    by_cases hs : s.data = []
    · obtain ⟨e, he, hrun⟩ := tel.createSlave_reject s.bytes
        (fun s' h => Slave.bytes_injective h ▸ hs)
        fun s' c h => nomatch (Slave.bytes_append_inj ((List.append_nil _).trans h)).2
      refine ⟨_, _, hrun, ?_⟩
      rw [if_neg Bool.false_ne_true]
      exact iff_of_false (fun h => he h.1) (not_not.2 hs)
    · refine ⟨_, _, tel.createSlave_bare s hs, ?_⟩
      rw [if_neg Bool.false_ne_true]
      exact iff_of_true ⟨rfl, rfl⟩ hs

theorem Decoded.showsSlave {tel : Telegram} {m : Master} {s : Slave} (h : Decoded tel m (some s)) :
    tel.ShowsSlave s ↔ Plain s.bytes := by
  obtain ⟨hslave, -, hstate⟩ := h.slave s rfl
  unfold Telegram.ShowsSlave
  rw [hslave, ← extendBytes_eq_self_iff]
  exact and_iff_right hstate

theorem slaveBytes (tel : Telegram) (s : Slave) : SlaveBytes tel s where
  created crc extended := createSlave_shows tel s crc (given_reduce s.bytes crc extended)
  createdFrom crc := by
    rw [createSlaveFrom_eq]
    apply createSlave_shows tel s crc
    cases crc <;> rfl
  parsed seq m h := by
    obtain ⟨tel', hrun, -, haccept⟩ := tel.parse_spec seq
    exact ⟨tel', hrun, (haccept m (some s) h).2.showsSlave⟩

/-! ### The callbacks -/

theorem handed_processed {w : World} {m : Master} (hprocessing : w.impl.processing = true)
    (hseq : w.impl.sequence.reduce.seq = m.frame) :
    ∃ state w' bytes, Prog.exec processMessage w = (.ok state, w') ∧
      w'.events = w.events ++ [.processed bytes] ∧ (bytes = m.bytes ↔ Plain m.bytes) := by
  have ht : m.Text w.impl.sequence.reduce.seq ⟨extendBytes m.bytes, true⟩ := by
    rw [hseq]
    exact .full
  have hevents : processEvents w.impl ⟨extendBytes m.bytes, true⟩ =
      [.processed (extendBytes m.bytes)] := by
    unfold processEvents
    rw [if_pos hprocessing]
  have hwp : Prog.wp processMessage
      (fun _ w' => w'.events = w.events ++ [.processed (extendBytes m.bytes)])
      (fun _ _ => False) w := by
    apply wp_processMessage _ _ w ht
    · intro s storedSlave seq _ _ _ _
      rw [hevents]
    · rw [hevents]
  obtain ⟨state, w', hrun, hev⟩ := Prog.exists_of_wp hwp
  exact ⟨state, w', _, hrun, hev, extendBytes_eq_self_iff _⟩

theorem handed_overheard {w : World} {m : Master} {s : Option Slave}
    (h : Accepted w.impl.sequence.reduce.seq m s) :
    ∃ w' first second, Prog.exec decodeSequence w = (.ok ⟨⟩, w') ∧
      w'.events = w.events ++ [.published first second] ∧ (first = m.bytes ↔ Plain m.bytes) ∧
      (s = none → second = []) ∧ ∀ s', s = some s' → (second = s'.bytes ↔ Plain s'.bytes) := by
  obtain ⟨tel, hrun, -, haccept⟩ := Telegram.parse_spec {} w.impl.sequence
  obtain ⟨hvalid, hd⟩ := haccept m s h
  have hwp : Prog.wp decodeSequence
      (fun _ w' => w'.events = w.events ++ [.published tel.master.seq tel.slave.seq])
      (fun _ _ => False) w := by
    rw [wp_decodeSequence _ _ w rfl hrun]
    unfold decodedEvents
    rw [if_pos hvalid]
  obtain ⟨⟨⟩, w', hexec, hev⟩ := Prog.exists_of_wp hwp
  refine ⟨w', _, _, hexec, hev, ?_, fun hs => ?_, fun s' hs => ?_⟩
  · rw [hd.master]
    exact extendBytes_eq_self_iff _
  · rw [hd.noSlave hs]
  · rw [(hd.slave s' hs).1]
    exact extendBytes_eq_self_iff _

theorem handed_received {w : World} {m : Master} {qq zz : Byte} {r : List Byte} {rest : List RecvResult}
    (hseq : w.impl.sequence = ⟨[qq, zz], true⟩) (hr : Framed (qq :: zz :: r))
    (hreads : w.env.reads = r.map .byte ++ rest) (hm : reduceBytes (qq :: zz :: r) = m.frame)
    (htype : m.type ≠ .MS) :
    Prog.wp receiveMessage
      (fun _ w' => ∃ acked first, w'.events = w.events ++ (r.map .got ++ acked) ++ [.published first []] ∧
        (first = m.bytes ↔ Plain m.bytes))
      (fun _ _ => True) w := by
  have ht : m.Text (reduceBytes (qq :: zz :: r)) ⟨extendBytes m.bytes, true⟩ := by
    rw [hm]
    exact .full
  refine wp_receiveMessage_framed _ _ w hseq hr hreads (fun _ _ _ => trivial)
    (fun m' stored seq acked w' ht' hacked h _ _ => ?_) (fun evs w' hno _ _ => absurd ht (hno m _))
    fun _ _ _ _ _ => trivial
  obtain ⟨rfl, rfl⟩ := ht'.eq_of_frame hm
  have hevents : receivedEvents m' ⟨extendBytes m'.bytes, true⟩ = [.published (extendBytes m'.bytes) []] :=
    if_pos htype
  refine ⟨acked, extendBytes m'.bytes, ?_, extendBytes_eq_self_iff _⟩
  rw [h.events, hevents]

theorem handed_answered {w w₁ w₂ : World} {m : Master} {s : Slave} {env : Env} {state : State} {crc : Bool}
    (hm : w.impl.sequence.reduce.seq = m.frame) (hs : w.env.response = (given s.bytes crc false).seq)
    (hprocess : Prog.exec processMessage w = (.ok .sendResponse, w₁))
    (hsend : Prog.exec sendResponse { w₁ with env } = (.ok state, w₂)) :
    ∃ evs first second, w₂.events =
        w₁.events ++ evs ++ .published first second :: resetEvents w.impl.activeMessage ∧
      (first = m.bytes ↔ Plain m.bytes) ∧ (second = s.bytes ↔ Shown s.bytes s.data crc) := by
  have ht : m.Text w.impl.sequence.reduce.seq ⟨extendBytes m.bytes, true⟩ := by
    rw [hm]
    exact .full
  let answer : State → World → Prop := fun state w₁ => state = .sendResponse →
    w₁.impl.activeMessage = w.impl.activeMessage ∧ ∃ s' stored, s'.Text w.env.response stored ∧
      w₁.impl.passiveMessage = some ⟨0, answeredTelegram m ⟨extendBytes m.bytes, true⟩ s' stored, 0⟩
  have hanswer : answer .sendResponse w₁ := by
    refine Prog.wp_ok (wp_processMessage answer (fun _ _ => True) w ht ?_ nofun) hprocess
    exact fun s' stored seq _ _ _ hs' _ => ⟨rfl, s', stored, hs', rfl⟩
  obtain ⟨hactive, s', stored, hs', hpassive⟩ := hanswer rfl
  -- the part that was answered is the one that was given
  have hpart : s' = s ∧ (stored.seq = s.bytes ↔ Shown s.bytes s.data crc) := by
    rw [hs] at hs'
    cases crc with
    | true =>
      obtain ⟨rfl, rfl⟩ := hs'.eq_of_frame rfl
      exact ⟨rfl, extendBytes_eq_self_iff _⟩
    | false =>
      have hbytes : (given s.bytes false false).seq = s.bytes := rfl
      rw [hbytes] at hs'
      generalize hl : s.bytes = l at hs'
      cases hs' with
      | bare hdata =>
        obtain rfl := Slave.bytes_injective hl
        exact ⟨rfl, iff_of_true rfl hdata⟩
      | full => exact nomatch (Slave.bytes_append_inj ((List.append_nil _).trans hl)).2
  obtain ⟨rfl, hshown⟩ := hpart
  let sent : State → World → Prop := fun _ w₂ => ∃ evs first second, w₂.events =
      w₁.events ++ evs ++ .published first second :: resetEvents w.impl.activeMessage ∧
    (first = m.bytes ↔ Plain m.bytes) ∧ (second = s'.bytes ↔ Shown s'.bytes s'.data crc)
  have hsent : sent state w₂ := by
    refine Prog.wp_ok (wp_sendResponse sent (fun _ _ => True) { w₁ with env } hpassive ?_
      fun _ _ _ _ => trivial) hsend
    intro evs last w' _ h hi
    refine ⟨evs, extendBytes m.bytes, stored.seq, ?_, extendBytes_eq_self_iff _, hshown⟩
    simp only [World.reset, h.events, hi, hactive, List.append_assoc, List.singleton_append]
    rfl
  exact hsent

theorem handed_responded {w : World} {message : Message} {raw : List Byte} {s : Slave} (retry : Nat)
    (hmessage : w.impl.activeMessage = some message) (hraw : reduceBytes raw = s.frame) :
    Prog.wp (acknowledgeResponse retry ⟨raw, true⟩)
      (fun _ w' => ∃ message', w'.impl.activeMessage = some message' ∧ message'.id = message.id ∧
        (message'.telegram.ShowsSlave s ↔ Plain s.bytes))
      (fun _ _ => True) w := by
  have ht : s.Text (reduceBytes raw) ⟨extendBytes s.bytes, true⟩ := by
    rw [hraw]
    exact .full
  refine wp_acknowledgeResponse retry raw _ _ w hmessage (fun s' stored x w' ht' _ hi => ?_)
    (fun slave nn crc e x w' hno _ _ => absurd ht (hno s _)) fun _ _ _ _ _ => trivial
  obtain ⟨rfl, rfl⟩ := ht'.eq_of_frame hraw
  refine ⟨_, congrArg EbusImpl.activeMessage hi, rfl, ?_⟩
  rw [← extendBytes_eq_self_iff]
  exact and_iff_right rfl

theorem handedBytes (m : Master) (s : Slave) : HandedBytes m s where
  processed _ hprocessing hseq := handed_processed hprocessing hseq
  overheard _ _ h := by
    obtain ⟨w', first, second, hexec, hev, hfirst, hnone, hsome⟩ := handed_overheard h
    exact ⟨w', first, second, hexec, hev, hfirst, hnone, hsome s⟩
  received _ _ _ _ _ hseq hr hreads hm htype := handed_received hseq hr hreads hm htype
  answered _ _ _ _ _ _ hm hs hprocess hsend := handed_answered hm hs hprocess hsend
  responded _ _ _ retry hmessage hraw := handed_responded retry hmessage hraw

/-! ### The calls -/

theorem Filled.append {log : List Event} {tel : Telegram} (h : Filled log tel) (evs : List Event) :
    Filled (log ++ evs) tel := by
  rcases h with hnil | ⟨before, after, raw, x, s, rfl, ht, hiff⟩
  · exact .inl hnil
  · exact .inr ⟨before, after ++ evs, raw, x, s, List.append_assoc _ _ _, ht, hiff⟩

section Round

variable {impl impl' : EbusImpl} {env : Env} {state : State} {result : Except Stop State}
  {evs log : List Event}

/-- The messages that have not failed hold what was read for them. -/
theorem Handled.filled (h : Handled impl env state result impl' evs)
    (hheld : ∀ message ∈ impl.held, message.state = 0 → Filled log message.telegram) :
    (Control.after result).Holds fun _ =>
      ∀ message ∈ impl'.held, message.state = 0 → Filled (log ++ evs) message.telegram := by
  have hkeep : ∀ l : List Message, (∀ message ∈ l, message ∈ impl.held) →
      ∀ message ∈ l, message.state = 0 → Filled (log ++ evs) message.telegram :=
    fun l hl message hm hzero => (hheld message (hl message hm) hzero).append evs
  have hactive : ∀ message', (message'.state = 0 → Filled (log ++ evs) message'.telegram) →
      ∀ message ∈ message' :: impl.messageQueue, message.state = 0 → Filled (log ++ evs) message.telegram := by
    intro message' hmessage' message hm
    rcases List.mem_cons.1 hm with rfl | hm
    · exact hmessage'
    · exact hkeep _ (fun _ => List.mem_append_right _) message hm
  have hfailure : EBUS_ERR_TRANSMIT ≠ 0 := by decide
  cases h with
  | idle hresult =>
    rcases hresult with ⟨-, rfl⟩ | ⟨-, rfl⟩ <;> exact hkeep _ fun _ => List.mem_append_right _
  | synced _ hqueue => exact hkeep _ fun _ => held_of_dequeued hqueue
  | @acked message _ _ hmessage =>
    refine hactive _ fun hzero => ?_
    exact (hheld message (List.mem_append_left _ (Option.mem_toList.2 hmessage)) hzero).append evs
  | unacked => exact hactive _ fun hzero => absurd hzero hfailure
  | rejected _ _ _ hfailed => exact hactive _ fun hzero => absurd (hfailed.symm.trans hzero) hfailure
  | @accepted message evs' raw s stored x _ _ _ _ _ hraw ht =>
    refine hactive _ fun _ => .inr ⟨log ++ evs', [], raw, x, s, ?_, ht, ht.seq_eq_iff⟩
    simp
  | device h =>
    refine hkeep _ fun message hm => List.mem_append_right _ ?_
    rw [← shell_messageQueue h.shell]
    exact hm
  | oversizeAlone | misread | hung => trivial
  | opened | oversize | responded | responseOversize | freed | unopened =>
    exact hkeep _ fun _ => List.mem_append_right _
  | _ => exact hkeep _ fun _ hm => hm

end Round

/-- What the steps keep of the messages and of what was published for them. -/
structure Returning (s : System) : Prop where
  entering : ∀ message ∈ s.entering, message.state = 0 → Filled s.log message.telegram
  held : s.control.Holds fun _ => ∀ message ∈ s.impl.held, message.state = 0 → Filled s.log message.telegram
  completed : ∀ message ∈ s.completed, (message.state = 0 → Filled s.log message.telegram) ∧
    ∃ before after, s.log = before ++ finish message ++ after

theorem returning_init (address : Byte) : Returning (System.init address) where
  entering := nofun
  held := nofun
  completed := nofun

theorem Returning.step {address : Byte} {s s' : System} {a : Action} (hsound : Sound address s)
    (h : Returning s) (hstep : s.step a = some s') : Returning s' := by
  obtain ⟨hentering, hheld, hcompleted⟩ := h
  cases stepped hsound.control hstep with
  | setting | failed | awoken => exact ⟨hentering, hheld, hcompleted⟩
  | called _ htel =>
    refine ⟨fun message hm => ?_, hheld, hcompleted⟩
    rcases List.mem_cons.1 hm with rfl | hm
    · intro _
      rw [htel]
      exact .inl rfl
    · exact hentering message hm
  | @enqueued first hfirst =>
    refine ⟨fun message hm => hentering message (List.mem_of_mem_erase hm),
      hheld.mono fun _ h message hm => ?_, hcompleted⟩
    rw [EbusImpl.held, ← List.append_assoc, List.mem_append, List.mem_singleton] at hm
    rcases hm with hm | rfl
    · exact h message hm
    · exact hentering message hfirst
  | stopped => exact ⟨hentering, trivial, hcompleted⟩
  | @thread state env result impl' evs hstate hh =>
    rw [hstate] at hheld
    refine ⟨fun message hm hzero => (hentering message hm hzero).append evs, hh.filled hheld,
      fun message hm => ?_⟩
    rcases List.mem_append.1 hm with hm | hm
    · obtain ⟨⟨close, rfl, -⟩, message', hactive, -, hdone⟩ := hh.completed hm
      refine ⟨fun hzero => ?_, s.log ++ close, [], by simp⟩
      obtain ⟨rfl, -⟩ := hdone.resolve_left (not_not.2 hzero)
      exact (hheld message (List.mem_append_left _ (Option.mem_toList.2 hactive)) hzero).append _
    · obtain ⟨hfilled, before, after, hlog⟩ := hcompleted message hm
      exact ⟨fun hzero => (hfilled hzero).append evs, before, after ++ evs, by rw [hlog, List.append_assoc]⟩
  | @check state hstate =>
    rw [hstate] at hheld
    exact ⟨hentering, hheld, hcompleted⟩
  | wake hwait =>
    rw [hwait] at hheld
    exact ⟨hentering, hheld, hcompleted⟩

theorem returnedBytes_of_run {address : Byte} {guard : System → Action → Prop} {as : List Action} {s : System}
    (hrun : Run System.step guard (System.init address) as s) : ReturnedBytes address s := by
  obtain ⟨hsound, hreturning⟩ := hrun.invariant (I := fun s => Sound address s ∧ Returning s)
    (fun _ _ _ h _ hstep => ⟨h.1.step hstep, h.2.step h.1 hstep⟩) ⟨sound_init address, returning_init address⟩
  refine ⟨fun message hm => (hreturning.completed message hm).2, fun message hm => ?_,
    fun message hm => (hreturning.completed message hm).1, (accounted_of_run hrun).returned⟩
  obtain ⟨request, m, ht, -, -⟩ := hsound.carries message (List.mem_append_right _ hm)
  exact ⟨request, m, ht, ht.seq_eq_iff⟩

/-- **The application gets the bytes of a part** exactly if it came without CRC and with data, or if
nothing in it is escaped: from a telegram, as an argument of a callback, and as the response of a call. -/
theorem application_bytes (m : Master) (s : Slave) :
    (∀ tel, MasterBytes tel m) ∧ (∀ tel, SlaveBytes tel s) ∧ HandedBytes m s ∧
      ∀ address as σ, Run System.step (fun _ _ => True) (System.init address) as σ → ReturnedBytes address σ :=
  ⟨fun tel => masterBytes tel m, fun tel => slaveBytes tel s, handedBytes m s,
    fun _ _ _ hrun => returnedBytes_of_run hrun⟩

/-- `10feb50501aa` with its CRC is accepted and shown as `10feb50501a901`. -/
theorem application_bytes_escaped_sample :
    ∃ (m : Master) (tel tel' : Telegram) (seq seq' : Sequence),
      m.bytes = [0x10, 0xfe, 0xb5, 0x05, 0x01, 0xaa] ∧
      Telegram.createMaster {} (given m.bytes false false) = .ok (tel, seq) ∧
      tel.ShowsMaster m ∧
      Telegram.createMaster {} (given m.bytes true false) = .ok (tel', seq') ∧
      tel'.masterState = SEQ_OK ∧
      tel'.master.seq = [0x10, 0xfe, 0xb5, 0x05, 0x01, 0xa9, 0x01] ∧
      ¬ tel'.ShowsMaster m := by
  let m : Master := ⟨0x10, 0xfe, 0xb5, 0x05, [0xaa], by decide, by decide, by decide⟩
  have hfull := ({} : Telegram).createMaster_full m m.crc
  rw [if_pos rfl] at hfull
  refine ⟨m, _, _, _, _, rfl, ({} : Telegram).createMaster_bare m (List.cons_ne_nil _ _), ⟨rfl, rfl⟩,
    hfull, rfl, by decide, fun h => ?_⟩
  exact absurd h.2 (by decide)

end EBusFsm

import EBusFsm.Machine.Delivery

/-!
# One round after the other

`Hears env s l P` says that the machine `s` reads the stream `l`, waits for the next byte, and that what it left
in the log and the state in which it waits satisfy `P`. A proof about a stream goes through it handler by handler
(`Hears.round`), and ends where the machine waits (`Hears.rest`).

Behind the rules stand what the handlers do on the streams that the delivery of a request to a slave does not
meet: the text of a telegram of others, a broadcast message and a message to a master.
-/

namespace EBusFsm

open Prog

/-! ### The rules -/

/-- The machine reads the stream, and waits with `P`. -/
def Hears (env : Env) (s : System) (l : List Byte) (P : List Event → System → Prop) : Prop :=
  ∃ s' evs, Listens env s l s' ∧ s'.log = s.log ++ evs ∧ P evs s'

/-- The machine goes on to monitor the bus, or to arbitrate for a message that it held. -/
structure Resumes (impl impl' : EbusImpl) (next : State) : Prop where
  close : impl'.close = impl.close
  running : impl'.running = impl.running
  next : next = .monitorBus ∨ next = .lockBus ∧ ∃ message ∈ impl.held, impl'.activeMessage = some message

@[simp] theorem System.next_impl (s : System) (w : World) (control : Control) :
    (s.next w control).impl = w.impl := rfl

/-- Every message that the machine holds has a source address. -/
def Sourced (impl : EbusImpl) : Prop :=
  ∀ message ∈ impl.held, ∃ qq rest, message.telegram.master.seq = qq :: rest

theorem sourced_of_run {guard : System → Action → Prop} {address : Byte} {as : List Action} {s : System}
    (hrun : Run System.step guard (System.init address) as s) : Sourced s.impl := by
  intro message hheld
  obtain ⟨request, hcarries⟩ := (sound_of_run hrun).carries message (mem_messages_of_held hheld)
  exact hcarries.seq

section Rules

variable {env : Env} {s : System} {P P' : List Event → System → Prop} {state next : State} {w : World}
  {l l' : List Byte}

theorem Hears.mono (h : Hears env s l P) (himp : ∀ evs s', P evs s' → P' evs s') : Hears env s l P' := by
  obtain ⟨s', evs, hlistens, hlog, hP⟩ := h
  exact ⟨s', evs, hlistens, hlog, himp evs s' hP⟩

/-- A handler that returns. -/
theorem Hears.round (hstate : s.control = .loop state) (hrunning : s.impl.running = true)
    (hrun : exec (handler state) ((World.start s.impl env).on l) = (.ok next, w.on l'))
    (hclose : w.impl.close = false)
    (hrest : Hears env (s.next w (.loop next)) l' fun evs s' => P (w.events ++ evs) s') :
    Hears env s l P := by
  obtain ⟨s', evs, hlistens, hlog, hP⟩ := hrest
  refine ⟨s', w.events ++ evs, .of_exec hstate hrunning hrun hclose hlistens, ?_, hP⟩
  rw [hlog]
  exact List.append_assoc _ _ _

/-- The machine waits, and may write once before. -/
theorem Hears.rest (hstate : s.control = .loop next) (hrunning : s.impl.running = true)
    (hnext : next = .monitorBus ∨ next = .lockBus ∧ ∃ message qq rest,
      s.impl.activeMessage = some message ∧ message.telegram.master.seq = qq :: rest)
    (hP : ∀ evs s', Quiet evs → gotBytes evs = [] → P evs s') : Hears env s [] P := by
  obtain ⟨s', evs, hlistens, hlog, hquiet, hgot⟩ :
      ∃ s' evs, Listens env s [] s' ∧ s'.log = s.log ++ evs ∧ Quiet evs ∧ gotBytes evs = [] :=
    Listens.rest hstate hrunning hnext
  exact ⟨s', evs, hlistens, hlog, hP evs s' hquiet hgot⟩

/-- Behind a synchronization byte. -/
theorem Hears.resume {impl : EbusImpl} (hstate : s.control = .loop next) (hresumes : Resumes impl s.impl next)
    (hrunning : impl.running = true) (hsourced : Sourced impl)
    (hP : ∀ evs s', Quiet evs → gotBytes evs = [] → P evs s') : Hears env s [] P := by
  refine .rest hstate (hresumes.running.trans hrunning) (hresumes.next.imp_right fun hlock => ?_) hP
  obtain ⟨hlock, message, hheld, hactive⟩ := hlock
  obtain ⟨qq, rest, hqq⟩ := hsourced message hheld
  exact ⟨hlock, message, qq, rest, hactive, hqq⟩

end Rules

/-! ### Telegrams of others -/

section Monitor

variable {impl : EbusImpl} {w : World}

theorem exec_checkMessage_on (w : World) (l : List Byte) : ∃ (impl' : EbusImpl) (next : State),
    exec checkMessage (w.on l) = (.ok next, ({ w with impl := impl' } : World).on l) ∧
      Resumes w.impl impl' next := by
  have hwp : wp checkMessage (fun next w' => ∃ impl', w' = ({ w with impl := impl' } : World).on l ∧
      Resumes w.impl impl' next) (fun _ _ => False) (w.on l) := by
    refine wp_checkMessage _ _ _ fun active queue hdequeued _ => ⟨_, rfl, rfl, rfl, ?_⟩
    split_ifs with hlock
    · obtain ⟨message, rfl⟩ := Option.isSome_iff_exists.1 hlock.1
      exact .inr ⟨rfl, message, held_of_dequeued hdequeued (by simp), rfl⟩
    · exact .inl rfl
  obtain ⟨next, w', hrun, impl', rfl, hresumes⟩ := exists_of_wp hwp
  exact ⟨impl', next, hrun, hresumes⟩

theorem exec_decodeSequence_on {seq : Sequence} {tel : Telegram} (hseq : w.impl.sequence = seq)
    (htel : Telegram.ofSequence seq = .ok (tel, seq.reduce)) (l : List Byte) :
    exec decodeSequence (w.on l) = (.ok ⟨⟩, ({ w with
      impl := { w.impl with sequence := {}, lockCounter := decodedLock seq w.impl.lockCounter }
      events := w.events ++ decodedEvents tel } : World).on l) := by
  have hwp := (wp_decodeSequence (fun _ w' => w' = ({ w with
    impl := { w.impl with sequence := {}, lockCounter := decodedLock seq w.impl.lockCounter }
    events := w.events ++ decodedEvents tel } : World).on l) (fun _ _ => False) (w.on l) hseq htel).2 rfl
  obtain ⟨_, w', hrun, rfl⟩ := exists_of_wp hwp
  exact hrun

/-- The synchronization byte when nothing was read since the last one. -/
theorem exec_monitorBus_idle (impl : EbusImpl) (env : Env) (hseq : impl.sequence = {}) (l : List Byte) :
    ∃ (impl' : EbusImpl) (next : State), exec monitorBus ((World.start impl env).on (seqSyn :: l)) =
      (.ok next, ({ impl := impl', env, events := [.got seqSyn] } : World).on l) ∧
        Resumes impl impl' next := by
  have hsize : ¬ Sequence.size {} ≠ 0 := by decide
  obtain ⟨impl', next, hrun, hresumes⟩ := exec_checkMessage_on
    ({ impl := { impl with lockCounter := countedLock impl, sequence := {} }
       env, events := [.got seqSyn] } : World) l
  refine ⟨impl', next, ?_, ⟨hresumes.close, hresumes.running, hresumes.next⟩⟩
  unfold monitorBus handleSyn countLock
  simp only [exec_bind, exec_read_on, if_true, exec_modifyImpl_on, exec_getImpl_on, hseq, hsize, if_false]
  exact hrun

/-- The synchronization byte behind the text of a telegram. -/
theorem exec_monitorBus_decode (env : Env) {tel : Telegram} (hseq : impl.sequence.seq ≠ [])
    (htel : Telegram.ofSequence impl.sequence = .ok (tel, impl.sequence.reduce)) (l : List Byte) :
    ∃ (impl' : EbusImpl) (next : State), exec monitorBus ((World.start impl env).on (seqSyn :: l)) =
      (.ok next, ({ impl := impl', env, events := .got seqSyn :: decodedEvents tel } : World).on l) ∧
        Resumes impl impl' next := by
  have hsize : impl.sequence.size ≠ 0 := fun h => hseq (List.length_eq_zero_iff.1 h)
  obtain ⟨impl', next, hrun, hresumes⟩ := exec_checkMessage_on
    ({ impl := { impl with
        sequence := {}, lockCounter := decodedLock impl.sequence (countedLock impl) }
       env, events := [Event.got seqSyn] ++ decodedEvents tel } : World) l
  refine ⟨impl', next, ?_, ⟨hresumes.close, hresumes.running, hresumes.next⟩⟩
  unfold monitorBus handleSyn countLock
  simp only [exec_bind, exec_read_on, if_true, exec_modifyImpl_on, exec_getImpl_on, hsize, ne_eq,
    not_false_eq_true]
  rw [exec_decodeSequence_on rfl htel]
  exact hrun

/-- A byte of a telegram that is not for this participant. -/
theorem exec_monitorBus_collect (env : Env) {l : List Byte} (hseq : impl.sequence.seq = l) {b : Byte}
    (hb : b ≠ seqSyn) (hother : l.length = 1 → ¬ Addressed impl b) (rest : List Byte) :
    exec monitorBus ((World.start impl env).on (b :: rest)) =
      (.ok .monitorBus,
        ({ impl := { impl with sequence := ⟨l ++ [b], true⟩ }
           env, events := [.got b] } : World).on rest) := by
  have hpush : impl.sequence.pushBack b = ⟨l ++ [b], true⟩ := by
    rw [Sequence.pushBack, hseq]
  unfold monitorBus
  simp only [exec_bind, exec_read_on, hb, if_false, exec_getImpl_on, hpush, exec_setSequence_on]
  by_cases hlen : l.length = 1
  · obtain ⟨qq, rfl⟩ := List.length_eq_one_iff.1 hlen
    have hzz : ¬ (b = seqBroad ∨ b = impl.address ∨ b = impl.slaveAddress) := hother rfl
    have hsize : Sequence.size ⟨[qq] ++ [b], true⟩ = 2 := rfl
    have hbyte : Sequence.byteAt ⟨[qq] ++ [b], true⟩ 1 = .ok b := rfl
    simp only [hsize, if_true, exec_bind, hbyte, exec_liftRange_ok, hzz, if_false, exec_pure]
    rfl
  · have hsize : ¬ Sequence.size ⟨l ++ [b], true⟩ = 2 := by
      rw [Sequence.size, List.length_append, List.length_singleton]
      omega
    simp only [hsize, if_false, exec_pure]
    rfl

/-- The bytes of a telegram that is not for this participant. -/
theorem Hears.collect {env : Env} {s : System} {l d rest : List Byte} {P : List Event → System → Prop}
    (hstate : s.control = .loop .monitorBus) (hseq : s.impl.sequence.seq = l) (hrunning : s.impl.running = true)
    (hclose : s.impl.close = false) (hsyn : seqSyn ∉ d)
    (hother : ∀ zz, (l ++ d)[1]? = some zz → l.length ≤ 1 → ¬ Addressed s.impl zz)
    (hrest : ∀ s' : System, s'.control = .loop .monitorBus →
      (d ≠ [] → s'.impl = { s.impl with sequence := ⟨l ++ d, true⟩ }) → (d = [] → s' = s) →
      Hears env s' rest fun evs s'' => P (d.map .got ++ evs) s'') : Hears env s (d ++ rest) P := by
  induction d generalizing s l P with
  | nil => exact hrest s hstate (fun h => absurd rfl h) fun _ => rfl
  | cons b d ih =>
    have hb : b ≠ seqSyn := fun h => hsyn (by simp [h])
    have hfirst : l.length = 1 → ¬ Addressed s.impl b := by
      intro hlen
      obtain ⟨qq, rfl⟩ := List.length_eq_one_iff.1 hlen
      exact hother b rfl hlen.le
    refine .round hstate hrunning (exec_monitorBus_collect env hseq hb hfirst (d ++ rest)) hclose ?_
    have happend : l ++ [b] ++ d = l ++ b :: d := by simp
    refine ih rfl rfl hrunning hclose (fun h => hsyn (List.mem_cons_of_mem _ h)) (fun zz hzz hlen => ?_)
      fun s' hcontrol himpl hnil => ?_
    · change (l ++ [b] ++ d)[1]? = some zz at hzz
      have hshort : (l ++ [b]).length ≤ 1 := hlen
      rw [happend] at hzz
      rw [List.length_append, List.length_singleton] at hshort
      exact hother zz hzz (by omega)
    · refine (hrest s' hcontrol (fun _ => ?_) nofun).mono fun evs s'' hP => hP
      by_cases hd : d = []
      · rw [hnil hd, hd]
        rfl
      · rw [himpl hd]
        show ({ s.impl with sequence := ⟨l ++ [b] ++ d, true⟩ } : EbusImpl) = _
        rw [happend]

end Monitor

/-! ### Messages to a master, and to all -/

section Sender

variable {impl : EbusImpl} {env : Env} {message : Message} {qq : Byte} {rest : List Byte}

/-- A message to all is not acknowledged. -/
theorem exec_sendMessage_broadcast (hactive : impl.activeMessage = some message)
    (hqq : message.telegram.master.seq = qq :: rest) (htype : message.telegram.type = .BC) (l : List Byte) :
    exec sendMessage ((World.start impl env).on (rest ++ message.telegram.masterCRC :: l)) =
      (.ok .freeBus, ({ impl, env, events := echo (rest ++ [message.telegram.masterCRC]) } : World).on l) := by
  have hdrop : message.telegram.master.seq.drop 1 = rest := by
    rw [hqq]
    rfl
  unfold sendMessage sendAttempt
  simp only [exec_bind, exec_getImpl_on, hactive, exec_deref_some, hdrop, exec_sendPart_on, htype, if_true,
    exec_pure]
  rfl

/-- A message to a master is not answered. -/
theorem exec_sendMessage_toMaster (hactive : impl.activeMessage = some message)
    (hqq : message.telegram.master.seq = qq :: rest) (htype : message.telegram.type = .MM) (l : List Byte) :
    exec sendMessage
        ((World.start impl env).on (rest ++ message.telegram.masterCRC :: seqAck :: l)) =
      (.ok .freeBus,
        ({ impl := { impl with
            activeMessage := some { message with telegram := message.telegram.setSlaveACK seqAck } }
           env, events := echo (rest ++ [message.telegram.masterCRC]) ++ [.got seqAck] } : World).on l) := by
  have hdrop : message.telegram.master.seq.drop 1 = rest := by
    rw [hqq]
    rfl
  unfold sendMessage sendAttempt
  simp only [exec_bind, exec_getImpl_on, hactive, exec_deref_some, hdrop, exec_sendPart_on, htype,
    reduceCtorEq, if_false, exec_read_on, exec_setActive_on, ne_eq, not_true_eq_false, false_and, if_true,
    exec_pure]
  rfl

end Sender

section Receiver

variable {impl : EbusImpl} {m : Master} {stored : Sequence}

/-- The bytes of a clear message are counted to its end. -/
theorem exec_receiveMessage_frame (env : Env) (hseq : impl.sequence = ⟨[m.qq, m.zz], true⟩) (hclear : Clear m.bytes m.crc)
    (l : List Byte) : exec receiveMessage ((World.start impl env).on (m.frame.drop 2 ++ l)) =
      exec acknowledgeMessage (({ impl := { impl with sequence := ⟨m.frame, true⟩ }
                                  env, events := (m.frame.drop 2).map .got } : World).on l) := by
  have hnn : ¬ m.data.length > seqMaxBytes := Nat.not_lt_of_ge m.bound
  have hdata : seqExp ∉ m.data := fun hmem =>
    hclear.1 seqExp (by simp [Master.bytes, hmem]) (.inr rfl)
  have hcrc : seqExp ∉ [m.crc] := by
    rw [List.mem_singleton]
    exact Ne.symm hclear.2
  have hframe : m.frame.drop 2 ++ l = m.pb :: m.sb :: m.nn :: (m.data ++ ([m.crc] ++ l)) := by
    simp [Master.frame, Master.bytes]
  have hpush : ((impl.sequence.pushBack m.pb).pushBack m.sb).pushBack m.nn =
      ⟨[m.qq, m.zz, m.pb, m.sb, m.nn], true⟩ := by
    rw [hseq]
    rfl
  have hbyte : Sequence.byteAt ⟨[m.qq, m.zz, m.pb, m.sb, m.nn], true⟩ 4 = .ok m.nn := rfl
  have hone : receiveCounted 1 = receiveCounted [m.crc].length := rfl
  unfold receiveMessage
  rw [hframe]
  simp only [exec_bind, exec_receiveByte_on, exec_getImpl_on, hpush, hbyte, exec_liftRange_ok, hnn, if_false,
    m.nn_toNat, exec_receiveCounted_on _ _ _ hdata, hone, exec_receiveCounted_on _ _ _ hcrc]
  congr 2
  simp [Master.frame, Master.bytes]

/-- What a receiver that is not asked writes behind the message, and reads back. -/
def receipt (m : Master) : List Byte := if m.type = .MM then [seqAck] else []

/-- A message that is not for a slave is published at once. -/
theorem exec_acknowledgeMessage_publish {w : World} (hseq : w.impl.sequence = ⟨m.frame, true⟩)
    (ht : m.Text (reduceBytes m.frame) stored) (htype : m.type ≠ .MS) (l : List Byte) :
    ∃ seq : Sequence, seq.reduce.seq = reduceBytes m.frame ∧
      exec acknowledgeMessage (w.on (receipt m ++ l)) = (.ok .processMessage,
        ({ w with
           impl := { w.impl with sequence := seq }
           events := w.events ++ (echo (receipt m) ++ [.published stored.seq []]) } : World).on l) := by
  obtain ⟨seq, hcreate, hreduce, hzz⟩ := ({} : Telegram).createMaster_text ht
  have hextended := ({} : Telegram).createMaster_reduce ⟨m.frame, true⟩
  rw [Sequence.reduce_extended, hcreate] at hextended
  refine ⟨seq, hreduce, ?_⟩
  unfold acknowledgeMessage deliverMessage
  simp only [exec_bind, exec_getImpl_on, hseq, hextended, exec_liftRange_ok, exec_setSequence_on, hzz,
    Telegram.withMaster, if_true, htype, ne_eq, not_false_eq_true, publish]
  by_cases hbroad : m.zz = seqBroad
  · have hno : receipt m = [] := by
      unfold receipt
      rw [m.type_eq_BC.2 hbroad]
      rfl
    simp only [hbroad, not_true_eq_false, if_false, hno, exec_pure, exec_bind, exec_emit_on]
    rfl
  · have hmm : m.type = .MM := by
      rcases m.type_cases with hbc | hmm | hms
      · exact absurd (m.type_eq_BC.1 hbc) hbroad
      · exact hmm
      · exact absurd hms htype
    have hack : receipt m = [seqAck] := by
      unfold receipt
      rw [hmm]
      rfl
    simp only [hbroad, not_false_eq_true, if_true, hack, List.singleton_append, exec_writeRead_on, exec_bind,
      exec_emit_on, exec_pure]
    simp [echo]

/-- The callback is invoked, and whatever it answers is dropped. -/
theorem exec_processMessage_drop (env : Env) (ht : m.Text impl.sequence.reduce.seq stored)
    (htype : m.type ≠ .MS) (l : List Byte) : exec processMessage ((World.start impl env).on l) =
      (.ok .monitorBus,
        ({ impl := { impl with sequence := {} }, env, events := processEvents impl stored } : World).on l) := by
  obtain ⟨seq, hcreate, -, -⟩ := ({} : Telegram).createMaster_text ht
  have hextended := ({} : Telegram).createMaster_reduce impl.sequence
  rw [hcreate] at hextended
  unfold processMessage process
  cases hprocessing : impl.processing with
  | false =>
    simp only [exec_bind, exec_getImpl_on, hextended, exec_liftRange_ok, exec_setSequence_on, hprocessing,
      Bool.false_eq_true, if_false, exec_pure, reduceCtorEq, processEvents]
  | true =>
    have htype' : ¬ (({} : Telegram).withMaster m stored m.crc SEQ_OK).type = .MS := htype
    simp only [exec_bind, exec_getImpl_on, hextended, exec_liftRange_ok, exec_setSequence_on, hprocessing,
      if_true, exec_emit_on, exec_get, exec_pure, htype', if_false, ite_self, processEvents]
    rfl

end Receiver

end EBusFsm

import EBusFsm.Machine.Causal
import EBusFsm.Machine.Spec

/-!
# Handlers on the stream of one exchange

What the handlers do when the stream is that of one exchange: the arbitration, a master part, an acknowledge
byte, a slave part, an acknowledge byte and the synchronization byte. A part is `Clear` when its raw bytes mean
what they say: nothing in it needs an escape, and its CRC is not the expand byte. The CRC may be the
synchronization byte, which `reduce` drops; the receiver then takes the part as one without a CRC.
-/

namespace EBusFsm

open Prog

/-- The bytes were written, and each was read back. -/
def echo (l : List Byte) : List Event := l.flatMap fun b => [.wrote b, .got b]

/-- The raw bytes of the part mean what they say. -/
def Clear (part : List Byte) (crc : Byte) : Prop := Plain part ∧ crc ≠ seqExp

instance (part : List Byte) (crc : Byte) : Decidable (Clear part crc) :=
  inferInstanceAs (Decidable (Plain part ∧ crc ≠ seqExp))

@[simp] theorem quiet_echo (l : List Byte) : Quiet (echo l) := by
  induction l with
  | nil => exact quiet_nil
  | cons b l ih => exact (quiet_cons _ _).2 ⟨rfl, (quiet_cons _ _).2 ⟨rfl, ih⟩⟩

/-! ### The reduced form of a clear part -/

theorem Clear.plain_frame {part : List Byte} {crc : Byte} (h : Clear part crc) (hsyn : crc ≠ seqSyn) :
    Plain (part ++ [crc]) := by
  rw [plain_append, plain_cons]
  exact ⟨h.1, ⟨hsyn, h.2⟩, plain_nil⟩

theorem reduceBytes_syn {part : List Byte} (h : Plain part) : reduceBytes (part ++ [seqSyn]) = part := by
  have hself := (extendBytes_eq_self_iff part).2 h
  have happend := reduceBytes_extendBytes_append part [seqSyn]
  rw [hself] at happend
  exact happend.trans (List.append_nil part)

/-- A clear frame that is read as it was written is one of the texts of the part. -/
theorem Master.text_of_clear {m : Master} (h : Clear m.bytes m.crc) (hdata : m.crc = seqSyn → m.data ≠ []) :
    ∃ stored, m.Text (reduceBytes m.frame) stored ∧ stored.seq = m.bytes := by
  unfold Master.frame
  by_cases hsyn : m.crc = seqSyn
  · rw [hsyn, reduceBytes_syn h.1]
    exact ⟨_, .bare (hdata hsyn), rfl⟩
  · rw [reduceBytes_of_plain (h.plain_frame hsyn)]
    exact ⟨_, .full, (extendBytes_eq_self_iff _).2 h.1⟩

theorem Slave.text_of_clear {s : Slave} (h : Clear s.bytes s.crc) :
    ∃ stored, s.Text (reduceBytes s.frame) stored ∧ stored.seq = s.bytes := by
  unfold Slave.frame
  by_cases hsyn : s.crc = seqSyn
  · rw [hsyn, reduceBytes_syn h.1]
    refine ⟨_, .bare fun hdata => ?_, rfl⟩
    -- the CRC of a part without data is zero
    have hzero : s.crc = 0 := by
      rw [Slave.crc, Slave.bytes, Slave.nn, hdata]
      rfl
    rw [hzero] at hsyn
    exact absurd hsyn (by decide)
  · rw [reduceBytes_of_plain (h.plain_frame hsyn)]
    exact ⟨_, .full, (extendBytes_eq_self_iff _).2 h.1⟩

/-- The stored form of a part whose bytes need no escape. -/
theorem Master.Text.stored_of_plain {m : Master} {l : List Byte} {stored : Sequence}
    (ht : m.Text l stored) (h : Plain m.bytes) : stored.seq = m.bytes := by
  cases ht with
  | bare => rfl
  | full => exact (extendBytes_eq_self_iff _).2 h

theorem Slave.Text.stored_of_plain {s : Slave} {l : List Byte} {stored : Sequence}
    (ht : s.Text l stored) (h : Plain s.bytes) : stored.seq = s.bytes := by
  cases ht with
  | bare => rfl
  | full => exact (extendBytes_eq_self_iff _).2 h

/-! ### Running on a stream -/

section Rules

variable (w : World) (l : List Byte)

theorem exec_getImpl_on : exec getImpl (w.on l) = (.ok w.impl, w.on l) := rfl

theorem on_reaction : (w.on l).env.reaction = w.env.reaction := rfl

theorem on_response : (w.on l).env.response = w.env.response := rfl

theorem on_length : (w.on l).env.reads.length = l.length := List.length_map _

theorem exec_modifyImpl_on (f : EbusImpl → EbusImpl) :
    exec (modifyImpl f) (w.on l) = (.ok ⟨⟩, ({ w with impl := f w.impl } : World).on l) := rfl

theorem exec_setSequence_on (seq : Sequence) : exec (setSequence seq) (w.on l) =
    (.ok ⟨⟩, ({ w with impl := { w.impl with sequence := seq } } : World).on l) := rfl

theorem exec_setActive_on (message : Message) : exec (setActive message) (w.on l) =
    (.ok ⟨⟩, ({ w with impl := { w.impl with activeMessage := some message } } : World).on l) := rfl

theorem exec_emit_on (e : Event) :
    exec (emit e) (w.on l) = (.ok ⟨⟩, ({ w with events := w.events ++ [e] } : World).on l) := rfl

theorem exec_liftRange_ok {α : Type} (a : α) : exec (liftRange (.ok a)) (w.on l) = (.ok a, w.on l) := rfl

theorem exec_deref_some (message : Message) :
    exec (deref (some message)) (w.on l) = (.ok message, w.on l) := rfl

theorem exec_write_on (b : Byte) :
    exec (write b) (w.on l) = (.ok ⟨⟩, ({ w with events := w.events ++ [.wrote b] } : World).on l) := rfl

theorem exec_read_on (sec nsec : Nat) (b : Byte) : exec (read sec nsec) (w.on (b :: l)) =
    (.ok b, ({ w with events := w.events ++ [.got b] } : World).on l) := rfl

theorem exec_writeRead_on (b x : Byte) (sec nsec : Nat) : exec (writeRead b sec nsec) (w.on (x :: l)) =
    (.ok ⟨⟩, ({ w with events := w.events ++ [.wrote b] ++ [.got x] } : World).on l) := rfl

theorem exec_reset_on : exec reset (w.on l) = (.ok ⟨⟩, w.reset.on l) := by
  have hwp := (wp_reset (fun _ w' => w' = (w.on l).reset) (fun _ _ => False) (w.on l)).2 rfl
  obtain ⟨_, w', hx, rfl⟩ := exists_of_wp hwp
  exact hx

end Rules

/-- A part is written and read back. -/
theorem exec_sendPart_on (w : World) (part : List Byte) (crc : Byte) (l : List Byte) :
    exec (sendPart part crc) (w.on (part ++ crc :: l)) =
      (.ok ⟨⟩, ({ w with events := w.events ++ echo (part ++ [crc]) } : World).on l) := by
  have hpart : exec (part.forM fun byte => writeRead byte 0 0) (w.on (part ++ crc :: l)) =
      (.ok ⟨⟩, ({ w with events := w.events ++ echo part } : World).on (crc :: l)) := by
    induction part generalizing w with
    | nil => simp [echo]
    | cons b part ih =>
      show exec (writeRead b 0 0 >>= fun _ => part.forM fun byte => writeRead byte 0 0) _ = _
      rw [exec_bind, List.cons_append, exec_writeRead_on]
      simp only [ih]
      simp [echo]
  rw [sendPart, exec_bind, hpart]
  simp only [exec_writeRead_on]
  simp [echo]

/-- A counting loop takes bytes among which there is no expand byte. -/
theorem exec_receiveBytes_on (fuel : Nat) (w : World) (d l : List Byte) (hd : seqExp ∉ d)
    (hfuel : d.length ≤ fuel) : exec (receiveBytes fuel d.length) (w.on (d ++ l)) =
      (.ok ⟨⟩, ({ w with
        impl := { w.impl with sequence := d.foldl (fun seq b => seq.pushBack b) w.impl.sequence }
        events := w.events ++ d.map .got } : World).on l) := by
  induction d generalizing fuel w with
  | nil =>
    cases fuel <;> simp [receiveBytes]
  | cons b d ih =>
    cases fuel with
    | zero => exact absurd hfuel (by simp)
    | succ fuel =>
      rw [List.mem_cons, not_or] at hd
      rw [List.length_cons, receiveBytes, exec_bind, receiveByte]
      simp only [exec_bind, List.cons_append, exec_read_on, exec_getImpl_on, exec_setSequence_on, exec_pure,
        if_neg (Ne.symm hd.1)]
      rw [ih fuel _ hd.2 (by simpa using hfuel)]
      simp

theorem exec_receivePart_on (fuel : Nat) (w : World) (seq : Sequence) (d l : List Byte) (hd : seqExp ∉ d)
    (hfuel : d.length ≤ fuel) : exec (receivePart fuel d.length seq) (w.on (d ++ l)) =
      (.ok (d.foldl (fun seq b => seq.pushBack b) seq),
        ({ w with events := w.events ++ d.map .got } : World).on l) := by
  induction d generalizing fuel w seq with
  | nil =>
    cases fuel <;> simp [receivePart]
  | cons b d ih =>
    cases fuel with
    | zero => exact absurd hfuel (by simp)
    | succ fuel =>
      rw [List.mem_cons, not_or] at hd
      rw [List.length_cons, receivePart, exec_bind]
      simp only [List.cons_append, exec_read_on, if_neg (Ne.symm hd.1)]
      rw [ih fuel _ _ hd.2 (by simpa using hfuel)]
      simp

/-! ### The active side -/

section Active

variable {impl : EbusImpl} {env : Env} {message : Message} {qq : Byte} {rest : List Byte}

/-- The world of a handler that starts. -/
abbrev World.start (impl : EbusImpl) (env : Env) : World := { impl, env }

theorem exec_lockBus_on (hactive : impl.activeMessage = some message)
    (hqq : message.telegram.master.seq = qq :: rest) (l : List Byte) :
    exec lockBus ((World.start impl env).on (qq :: l)) =
      (.ok .sendMessage, ({ impl, env, events := [.wrote qq, .got qq] } : World).on l) := by
  unfold lockBus
  simp only [exec_bind, exec_getImpl_on, hactive, exec_deref_some, Telegram.getMasterQQ_eq hqq,
    exec_liftRange_ok, exec_write_on, exec_read_on, ne_eq, not_true_eq_false, if_false, exec_pure]
  rfl

/-- A message that is acknowledged at once. -/
theorem exec_sendMessage_on (hactive : impl.activeMessage = some message)
    (hqq : message.telegram.master.seq = qq :: rest) (htype : message.telegram.type = .MS) (l : List Byte) :
    exec sendMessage
        ((World.start impl env).on (rest ++ message.telegram.masterCRC :: seqAck :: l)) =
      (.ok .receiveResponse,
        ({ impl := { impl with
            activeMessage := some { message with telegram := message.telegram.setSlaveACK seqAck } }
           env, events := echo (rest ++ [message.telegram.masterCRC]) ++ [.got seqAck] } : World).on l) := by
  have hdrop : message.telegram.master.seq.drop 1 = rest := by
    rw [hqq]
    rfl
  unfold sendMessage sendAttempt
  simp only [exec_bind, exec_getImpl_on, hactive, exec_deref_some, hdrop, exec_sendPart_on, htype,
    reduceCtorEq, if_false, exec_read_on, exec_setActive_on, ne_eq, not_true_eq_false, false_and, if_true,
    exec_pure]
  rfl

/-- The bytes of a clear response behind its size byte. -/
theorem exec_receiveSlave_on {s : Slave} (hclear : Clear s.bytes s.crc) (w : World) (l : List Byte) :
    exec (receiveSlave s.nn) (w.on (s.data ++ [s.crc] ++ l)) =
      (.ok ⟨s.frame, true⟩,
        ({ w with events := w.events ++ (s.data ++ [s.crc]).map .got } : World).on l) := by
  have hexp : seqExp ∉ s.data ++ [s.crc] := by
    rw [List.mem_append, List.mem_singleton]
    rintro (hmem | hcrc)
    · exact hclear.1 seqExp (List.mem_cons_of_mem _ hmem) (.inr rfl)
    · exact hclear.2 hcrc.symm
  have hlen : s.nn.toNat + 1 = (s.data ++ [s.crc]).length := by
    rw [s.nn_toNat, List.length_append, List.length_singleton]
  have hpush : ({} : Sequence).pushBack s.nn = ⟨[s.nn], true⟩ := rfl
  unfold receiveSlave
  rw [exec_bind, exec_get]
  simp only [on_length]
  rw [hlen, exec_receivePart_on _ _ _ _ _ hexp (by simp), hpush, foldl_pushBack _ _ true rfl]
  rfl

/-- A clear response is acknowledged. -/
theorem exec_receiveResponse_on {s : Slave} {stored : Sequence} (hactive : impl.activeMessage = some message)
    (hclear : Clear s.bytes s.crc) (ht : s.Text (reduceBytes s.frame) stored) (l : List Byte) :
    exec receiveResponse ((World.start impl env).on (s.frame ++ seqAck :: l)) =
      (.ok .freeBus,
        ({ impl := { impl with
            activeMessage :=
              some { message with telegram := respondedTelegram message.telegram s stored } }
           env, events := s.frame.map .got ++ [.wrote seqAck, .got seqAck] } : World).on l) := by
  have hnn : ¬ s.nn.toNat > seqMaxBytes := by
    rw [s.nn_toNat]
    exact Nat.not_lt_of_ge s.bound
  have hframe : s.frame ++ seqAck :: l = s.nn :: ((s.data ++ [s.crc]) ++ seqAck :: l) := rfl
  obtain ⟨seq, hcreate⟩ := message.telegram.createSlave_text ht
  have hreduce := message.telegram.createSlave_reduce ⟨s.frame, true⟩
  rw [Sequence.reduce_extended, hcreate] at hreduce
  unfold receiveResponse receiveAttempt acknowledgeResponse
  rw [hframe]
  simp only [exec_bind, exec_getImpl_on, hactive, exec_deref_some, exec_read_on, hnn, if_false,
    exec_receiveSlave_on hclear, hreduce, exec_liftRange_ok, exec_setActive_on, Telegram.withSlave, if_true,
    exec_writeRead_on, exec_pure]
  have hevs : [] ++ [Event.got s.nn] ++ (s.data ++ [s.crc]).map Event.got ++ [Event.wrote seqAck] ++
      [Event.got seqAck] = s.frame.map Event.got ++ [Event.wrote seqAck, Event.got seqAck] := by
    simp [Slave.frame, Slave.bytes]
  rw [hevs]
  rfl

theorem exec_freeBus_on (l : List Byte) : exec freeBus ((World.start impl env).on (seqSyn :: l)) =
    (.ok .monitorBus,
      ({ impl := resetImpl impl
         env, events := [.wrote seqSyn, .got seqSyn] ++ resetEvents impl.activeMessage } : World).on l) := by
  unfold freeBus
  simp only [exec_bind, exec_writeRead_on, exec_reset_on, exec_pure]
  rfl

end Active

/-! ### The passive side -/

section Passive

variable {impl : EbusImpl} {env : Env} {m : Master} {s : Slave}

/-- The source address. -/
theorem exec_monitorBus_first (hseq : impl.sequence.seq = []) {b : Byte} (hb : b ≠ seqSyn)
    (l : List Byte) : exec monitorBus ((World.start impl env).on (b :: l)) =
      (.ok .monitorBus,
        ({ impl := { impl with sequence := ⟨[b], true⟩ }
           env, events := [.got b] } : World).on l) := by
  have hpush : impl.sequence.pushBack b = ⟨[b], true⟩ := by
    rw [Sequence.pushBack, hseq]
    rfl
  unfold monitorBus
  simp only [exec_bind, exec_read_on, hb, if_false, exec_getImpl_on, hpush, exec_setSequence_on]
  rfl

/-- The target address. -/
theorem exec_monitorBus_second {qq zz : Byte} (hseq : impl.sequence = ⟨[qq], true⟩) (hb : zz ≠ seqSyn)
    (haddr : Addressed impl zz) (l : List Byte) :
    exec monitorBus ((World.start impl env).on (zz :: l)) =
      (.ok .receiveMessage,
        ({ impl := { impl with sequence := ⟨[qq, zz], true⟩ }
           env, events := [.got zz] } : World).on l) := by
  have hpush : impl.sequence.pushBack zz = ⟨[qq, zz], true⟩ := by
    rw [hseq]
    rfl
  have hzz : zz = seqBroad ∨ zz = impl.address ∨ zz = impl.slaveAddress := haddr
  unfold monitorBus
  simp only [exec_bind, exec_read_on, hb, if_false, exec_getImpl_on, hpush, exec_setSequence_on,
    show Sequence.size ⟨[qq, zz], true⟩ = 2 from rfl, if_true,
    show Sequence.byteAt ⟨[qq, zz], true⟩ 1 = .ok zz from rfl, exec_liftRange_ok, hzz, exec_pure]
  rfl

/-- The synchronization byte on an idle bus: the machine may arbitrate next. -/
theorem exec_monitorBus_syn (env : Env) (hseq : impl.sequence = {}) (hactive : impl.activeMessage = none)
    (l : List Byte) : ∃ (impl' : EbusImpl) (next : State),
      exec monitorBus ((World.start impl env).on (seqSyn :: l)) =
        (.ok next, ({ impl := impl', env, events := [.got seqSyn] } : World).on l) ∧
      impl'.close = impl.close ∧ impl'.running = impl.running ∧
      (next = .monitorBus ∨ next = .lockBus ∧
        ∃ message ∈ impl.messageQueue, impl'.activeMessage = some message) := by
  have hsize : ¬ Sequence.size {} ≠ 0 := by decide
  unfold monitorBus handleSyn countLock checkMessage dequeueMessage
  simp only [exec_bind, exec_read_on, if_true, exec_modifyImpl_on, exec_getImpl_on, hseq, hsize, if_false,
    hactive]
  generalize (if impl.lockCounter ≠ 0 then impl.lockCounter - 1 else impl.lockCounter) = lock
  cases hqueue : impl.messageQueue with
  | nil => exact ⟨_, .monitorBus, rfl, rfl, rfl, .inl rfl⟩
  | cons message queue =>
    simp only [Option.isSome_some, true_and]
    split_ifs with hlock
    · exact ⟨_, .lockBus, rfl, rfl, rfl, .inr ⟨rfl, message, List.mem_cons_self, rfl⟩⟩
    · exact ⟨_, .monitorBus, rfl, rfl, rfl, .inl rfl⟩

theorem exec_receiveByte_on (w : World) (b : Byte) (l : List Byte) :
    exec receiveByte (w.on (b :: l)) =
      (.ok b, ({ w with
        impl := { w.impl with sequence := w.impl.sequence.pushBack b }
        events := w.events ++ [.got b] } : World).on l) := rfl

theorem exec_receiveCounted_on (w : World) (d l : List Byte) (hd : seqExp ∉ d)
    (hseq : w.impl.sequence.extended = true) : exec (receiveCounted d.length) (w.on (d ++ l)) =
      (.ok ⟨⟩, ({ w with
        impl := { w.impl with sequence := ⟨w.impl.sequence.seq ++ d, true⟩ }
        events := w.events ++ d.map .got } : World).on l) := by
  have hlen : d.length ≤ (d ++ l).length + 1 := by
    rw [List.length_append]
    omega
  unfold receiveCounted
  rw [exec_bind, exec_get]
  simp only [on_length]
  rw [exec_receiveBytes_on _ _ _ _ hd hlen, foldl_pushBack _ _ true hseq]

/-- A message that is one of the texts of a part is acknowledged. -/
theorem exec_acknowledgeMessage_on {w : World} {stored : Sequence} (hseq : w.impl.sequence = ⟨m.frame, true⟩)
    (ht : m.Text (reduceBytes m.frame) stored) (htype : m.type = .MS) (l : List Byte) :
    ∃ seq : Sequence, seq.reduce.seq = reduceBytes m.frame ∧
      exec acknowledgeMessage (w.on (seqAck :: l)) = (.ok .processMessage,
        ({ w with
           impl := { w.impl with sequence := seq }
           events := w.events ++ [.wrote seqAck, .got seqAck] } : World).on l) := by
  have hbroad : m.zz ≠ seqBroad := by
    intro hzz
    rw [m.type_eq_BC.2 hzz] at htype
    exact nomatch htype
  obtain ⟨seq, hcreate, hreduce, hzz⟩ := ({} : Telegram).createMaster_text ht
  have hextended := ({} : Telegram).createMaster_reduce ⟨m.frame, true⟩
  rw [Sequence.reduce_extended, hcreate] at hextended
  refine ⟨seq, hreduce, ?_⟩
  unfold acknowledgeMessage deliverMessage
  simp only [exec_bind, exec_getImpl_on, hseq, hextended, exec_liftRange_ok, exec_setSequence_on, hzz, ne_eq,
    hbroad, not_false_eq_true, if_true, Telegram.withMaster, htype, not_true_eq_false, if_false,
    exec_writeRead_on, exec_pure, List.append_assoc, List.cons_append, List.nil_append]

/-- A clear message is acknowledged. -/
theorem exec_receiveMessage_on (env : Env) {stored : Sequence} (hseq : impl.sequence = ⟨[m.qq, m.zz], true⟩)
    (hclear : Clear m.bytes m.crc) (ht : m.Text (reduceBytes m.frame) stored) (htype : m.type = .MS)
    (l : List Byte) : ∃ seq : Sequence, seq.reduce.seq = reduceBytes m.frame ∧
      exec receiveMessage ((World.start impl env).on (m.frame.drop 2 ++ seqAck :: l)) =
        (.ok .processMessage,
          ({ impl := { impl with sequence := seq }
             env, events := (m.frame.drop 2).map .got ++ [.wrote seqAck, .got seqAck] } : World).on l) := by
  have hnn : ¬ m.data.length > seqMaxBytes := Nat.not_lt_of_ge m.bound
  have hdata : seqExp ∉ m.data := fun hmem =>
    hclear.1 seqExp (by simp [Master.bytes, hmem]) (.inr rfl)
  have hcrc : seqExp ∉ [m.crc] := by
    rw [List.mem_singleton]
    exact Ne.symm hclear.2
  have hframe : m.frame.drop 2 ++ seqAck :: l =
      m.pb :: m.sb :: m.nn :: (m.data ++ ([m.crc] ++ seqAck :: l)) := by
    simp [Master.frame, Master.bytes]
  have hpush : ((impl.sequence.pushBack m.pb).pushBack m.sb).pushBack m.nn =
      ⟨[m.qq, m.zz, m.pb, m.sb, m.nn], true⟩ := by
    rw [hseq]
    rfl
  have hbyte : Sequence.byteAt ⟨[m.qq, m.zz, m.pb, m.sb, m.nn], true⟩ 4 = .ok m.nn := rfl
  have hone : receiveCounted 1 = receiveCounted [m.crc].length := rfl
  let received : World :=
    { impl := { impl with sequence := ⟨m.frame, true⟩ }
      env, events := (m.frame.drop 2).map .got }
  have hreceived : exec receiveMessage ((World.start impl env).on (m.frame.drop 2 ++ seqAck :: l)) =
      exec acknowledgeMessage (received.on (seqAck :: l)) := by
    unfold receiveMessage
    rw [hframe]
    simp only [exec_bind, exec_receiveByte_on, exec_getImpl_on, hpush, hbyte, exec_liftRange_ok, hnn, if_false,
      m.nn_toNat, exec_receiveCounted_on _ _ _ hdata, hone, exec_receiveCounted_on _ _ _ hcrc]
    congr 2
    simp [received, Master.frame, Master.bytes]
  obtain ⟨seq, hreduce, hack⟩ := exec_acknowledgeMessage_on (w := received) rfl ht htype l
  exact ⟨seq, hreduce, hreceived.trans hack⟩

/-- The callback is invoked, and its response is accepted. -/
theorem exec_processMessage_on {stored storedSlave : Sequence} (hprocessing : impl.processing = true)
    (hreaction : env.reaction = .response) (ht : m.Text impl.sequence.reduce.seq stored)
    (htype : m.type = .MS) (hs : s.Text env.response storedSlave) (l : List Byte) :
    ∃ seq : Sequence, exec processMessage ((World.start impl env).on l) = (.ok .sendResponse,
      ({ impl := { impl with
          sequence := seq
          passiveMessage := some ⟨0, answeredTelegram m stored s storedSlave, 0⟩ }
         env, events := [.processed stored.seq] } : World).on l) := by
  obtain ⟨seq, hcreate, -, -⟩ := ({} : Telegram).createMaster_text ht
  have hextended := ({} : Telegram).createMaster_reduce impl.sequence
  rw [hcreate] at hextended
  obtain ⟨seq', hanswer⟩ := (({} : Telegram).withMaster m stored m.crc SEQ_OK).createSlave_text hs
  have hms : (({} : Telegram).withMaster m stored m.crc SEQ_OK).type = .MS := htype
  have hok : ((({} : Telegram).withMaster m stored m.crc SEQ_OK).withSlave s storedSlave s.crc
      SEQ_OK).slaveState = SEQ_OK := rfl
  refine ⟨seq, ?_⟩
  unfold processMessage process
  simp only [exec_bind, exec_getImpl_on, hextended, exec_liftRange_ok, exec_setSequence_on, hprocessing,
    if_true, exec_emit_on, exec_get, exec_pure, on_reaction, on_response, hreaction, hms, createSlaveFrom_eq,
    hanswer, hok, exec_modifyImpl_on]
  rfl

/-- A response that is acknowledged at once. -/
theorem exec_sendResponse_on (env : Env) {message : Message} (hpassive : impl.passiveMessage = some message)
    (l : List Byte) :
    exec sendResponse ((World.start impl env).on
        (message.telegram.slave.seq ++ message.telegram.slaveCRC :: seqAck :: l)) =
      (.ok .monitorBus,
        ({ impl := resetImpl impl
           env, events := echo (message.telegram.slave.seq ++ [message.telegram.slaveCRC]) ++
              [.got seqAck, .published message.telegram.master.seq message.telegram.slave.seq] ++
              resetEvents impl.activeMessage } : World).on l) := by
  have hack : ¬ seqAck = seqNak := by decide
  unfold sendResponse finishResponse publish
  simp only [exec_bind, exec_getImpl_on, hpassive, exec_deref_some, exec_sendPart_on, exec_read_on, hack,
    if_false, exec_modifyImpl_on, exec_emit_on, exec_reset_on, exec_pure]
  simp only [World.reset, List.nil_append, List.append_assoc, List.cons_append]
  rfl

end Passive

end EBusFsm

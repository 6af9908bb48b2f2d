import EBusFsm.Machine.Io
import EBusFsm.Telegram.Parse

/-!
# What each handler does

One rule for each state handler: under the condition that holds when `run` enters it, every way in
which it can end is one hypothesis of the rule, with the events it leaves and the members it changes.
Nothing above this module unfolds a handler.

The conditions are those that keep a handler from a fault. `Framed raw` are the raw bytes that
`receiveMessage` counts as one message, `Response raw` those of a response.
-/

namespace EBusFsm

open Prog

/-! ### `reset` -/

def resetImpl (impl : EbusImpl) : EbusImpl :=
  { impl with
    openCounter := 0
    lockCounter := impl.lockCounterMax
    sequence := {}
    activeMessage := none
    passiveMessage := none }

/-- A message is published and its caller notified. -/
def finish (message : Message) : List Event :=
  [.published message.telegram.master.seq message.telegram.slave.seq, .notified message]

def resetEvents : Option Message → List Event
  | none => []
  | some message => finish message

def World.reset (w : World) : World :=
  { w with impl := resetImpl w.impl, events := w.events ++ resetEvents w.impl.activeMessage }

@[simp] theorem wp_reset (Q : PUnit → World → Prop) (E : Stop → World → Prop) (w : World) :
    wp reset Q E w ↔ Q ⟨⟩ w.reset := by
  rcases ha : w.impl.activeMessage with _ | message
  · simp only [reset, wp_bind, wp_modifyImpl, wp_getImpl, ha, World.reset, resetEvents,
      List.append_nil, resetImpl]
  · simp only [reset, wp_bind, wp_modifyImpl, wp_getImpl, ha, publish, wp_emit, World.reset,
      resetEvents, finish, resetImpl, List.append_assoc, List.singleton_append]

/-! ### Opening and closing -/

def idleImpl (impl : EbusImpl) : EbusImpl :=
  { resetImpl impl with deviceOpen := false, online := false, close := false }

theorem wp_idleSystem (Q : State → World → Prop) (E : Stop → World → Prop) (w : World)
    (hwake : w.impl.notify = true → Q .openDevice { w.reset with impl := idleImpl w.impl })
    (hwait : w.impl.notify = false → E .blocked { w.reset with impl := idleImpl w.impl }) :
    wp idleSystem Q E w := by
  have hclose : ∀ Q : PUnit → World → Prop, wp closeDevice Q E w ↔
      Q ⟨⟩ { w with impl := { w.impl with deviceOpen := false } } := by
    rcases w with ⟨⟨_, _, _, _, _, _, _, _, _, _, _ | _, _, _, _, _, _⟩, env, events⟩ <;>
      exact fun Q => Iff.rfl
  simp only [idleSystem, wp_bind, hclose, wp_reset, wp_modifyImpl, wp_getImpl, wp_ite]
  exact ⟨fun h => hwake h, fun h => hwait ((Bool.not_eq_true _).mp h)⟩

/-- The bytes up to the first synchronization byte. -/
def Flushed (l : List Byte) : Prop := ∃ pre, l = pre ++ [seqSyn] ∧ seqSyn ∉ pre

theorem wp_flushDevice (fuel : Nat) (Q : PUnit → World → Prop) (E : Stop → World → Prop) (w : World)
    (hfuel : w.env.reads.length < fuel)
    (hok : ∀ (l : List Byte) w', Flushed l → Adv w w' (l.map .got) → w'.impl = w.impl → Q ⟨⟩ w')
    (hstop : ∀ e w' (l : List Byte), Starve w e w' (l.map .got) → E e w') :
    wp (flushDevice fuel) Q E w := by
  induction fuel generalizing w with
  | zero => exact absurd hfuel (Nat.not_lt_zero _)
  | succ fuel ih =>
    rw [flushDevice, wp_bind]
    refine wp_read 1 0 _ _ w (fun b reads hr => ?_) fun e w' h => hstop e w' [] h
    have ha := w.adv_got b reads hr
    have hfuel₁ : (w.got b).env.reads.length < fuel := by
      rw [World.got, hr]
      rw [hr, List.length_cons] at hfuel
      exact Nat.lt_of_succ_lt_succ hfuel
    rw [wp_ite]
    refine ⟨fun hb => ?_, fun hb => ?_⟩
    · refine ih _ hfuel₁ (fun l w' hl h hi => hok (b :: l) w' ?_ (ha.trans h) hi)
        fun e w' l h => hstop e w' (b :: l) (ha.starve h)
      obtain ⟨pre, rfl, hpre⟩ := hl
      exact ⟨b :: pre, rfl, List.not_mem_cons_of_ne_of_not_mem (Ne.symm hb) hpre⟩
    · obtain rfl := not_not.1 hb
      exact hok [seqSyn] _ ⟨[], rfl, List.not_mem_nil⟩ ha rfl

theorem wp_openDevice (Q : State → World → Prop) (E : Stop → World → Prop) (w : World)
    (hok : ∀ (l : List Byte) w', Flushed l → Adv w w' (l.map .got) →
      w'.impl = { w.impl with deviceOpen := true } →
      Q .monitorBus { w'.reset with impl := { resetImpl w'.impl with online := true } })
    (hrefused : w.impl.deviceOpen = false → w.env.opens = false → E .error w)
    (hstop : ∀ e w' (l : List Byte), Starve w e w' (l.map .got) → E e w') : wp openDevice Q E w := by
  have hopen : ∀ w₁ : World, Adv w w₁ [] → w₁.impl = { w.impl with deviceOpen := true } →
      wp synchronize Q E w₁ := by
    intro w₁ h₁ hi₁
    simp only [synchronize, flush, wp_bind, wp_get, wp_reset, wp_modifyImpl, wp_pure]
    refine wp_flushDevice _ _ _ w₁ (Nat.lt_succ_self _) (fun l w₂ hl h₂ hi₂ => ?_) fun e w₂ l h₂ =>
      hstop e w₂ l (h₁.starve h₂)
    exact hok l w₂ hl (h₁.trans h₂) (hi₂.trans hi₁)
  by_cases hd : w.impl.deviceOpen = true
  · simp only [openDevice, wp_bind, wp_getImpl, hd, Bool.not_true, Bool.false_eq_true, if_false]
    refine hopen w (.refl w) ?_
    rw [← hd]
  · have hd' : w.impl.deviceOpen = false := (Bool.not_eq_true _).mp hd
    simp only [openDevice, deviceOpen, wp_bind, wp_getImpl, hd', Bool.not_false, if_true, wp_get]
    rcases ho : w.env.opens with _ | _
    · simp only [Bool.not_false, if_true]
      exact hrefused hd' ho
    · simp only [Bool.not_true, Bool.false_eq_true, if_false, wp_modifyImpl]
      exact hopen _ (.modify w _ rfl fun _ => rfl) rfl

/-! ### `monitorBus` -/

/-- What `decodeSequence` publishes. -/
def decodedEvents (tel : Telegram) : List Event :=
  if tel.isValid then [.published tel.master.seq tel.slave.seq] else []

/-- The counter after `decodeSequence`. -/
def decodedLock (seq : Sequence) (lock : Int) : Int :=
  if seq.reduce.size = 1 ∧ lock < 2 then 2 else lock

theorem wp_decodeSequence (Q : PUnit → World → Prop) (E : Stop → World → Prop) (w : World)
    {seq : Sequence} {tel : Telegram} (hseq : w.impl.sequence = seq)
    (htel : Telegram.ofSequence seq = .ok (tel, seq.reduce)) :
    wp decodeSequence Q E w ↔
      Q ⟨⟩ { w with
        impl := { w.impl with
          sequence := {}, lockCounter := decodedLock seq w.impl.lockCounter }
        events := w.events ++ decodedEvents tel } := by
  simp only [decodeSequence, wp_bind, wp_getImpl, hseq, htel, wp_liftRange_ok, wp_setSequence]
  rcases hv : tel.isValid with _ | _
  · simp only [Bool.false_eq_true, if_false, wp_bind, wp_modifyImpl, wp_setSequence, decodedEvents,
      decodedLock, hv, List.append_nil]
  · simp only [if_true, publish, wp_bind, wp_emit, wp_modifyImpl, wp_setSequence, decodedEvents,
      decodedLock, hv]

/-- `dequeueMessage` leaves `active` and `queue`. -/
inductive Dequeued (impl : EbusImpl) : Option Message → List Message → Prop
  | keep : Dequeued impl impl.activeMessage impl.messageQueue
  | take (message : Message) (queue : List Message) (hactive : impl.activeMessage = none)
      (hqueue : impl.messageQueue = message :: queue) : Dequeued impl (some message) queue

theorem wp_checkMessage (Q : State → World → Prop) (E : Stop → World → Prop) (w : World)
    (hok : ∀ active queue, Dequeued w.impl active queue → (active = none → queue = []) →
      Q (if active.isSome ∧ w.impl.lockCounter = 0 then .lockBus else .monitorBus)
        { w with impl := { w.impl with activeMessage := active, messageQueue := queue } }) :
    wp checkMessage Q E w := by
  have hnext : ∀ active queue, Dequeued w.impl active queue → (active = none → queue = []) →
      wp (do
        let impl ← getImpl
        if impl.activeMessage.isSome ∧ impl.lockCounter = 0 then return State.lockBus
        return State.monitorBus) Q E
        { w with impl := { w.impl with activeMessage := active, messageQueue := queue } } := by
    intro active queue hq hempty
    have hQ := hok active queue hq hempty
    simp only [wp_bind, wp_getImpl]
    split_ifs at hQ ⊢ with hl <;> exact hQ
  rw [checkMessage, wp_bind, dequeueMessage, wp_modifyImpl]
  rcases ha : w.impl.activeMessage with _ | message
  · rcases hq : w.impl.messageQueue with _ | ⟨message, queue⟩
    · exact hnext _ _ .keep fun _ => hq
    · exact hnext _ _ (.take message queue ha hq) (by simp)
  · exact hnext _ _ .keep (by simp [ha])

/-- What `monitorBus` publishes when a synchronization byte arrives. -/
inductive Overheard (seq : Sequence) : List Event → Prop
  | nothing : Overheard seq []
  | telegram (tel : Telegram) (hseq : seq.seq ≠ [])
      (htel : Telegram.ofSequence seq = .ok (tel, seq.reduce)) (hvalid : tel.isValid = true) :
      Overheard seq [.published tel.master.seq tel.slave.seq]

/-- The counter after a synchronization byte. -/
def countedLock (impl : EbusImpl) : Int :=
  if impl.lockCounter ≠ 0 then impl.lockCounter - 1 else impl.lockCounter

/-- The counter after a synchronization byte and the decoding of what was read before it. -/
def syncedLock (impl : EbusImpl) : Int :=
  if impl.sequence.size ≠ 0 then decodedLock impl.sequence (countedLock impl) else countedLock impl

theorem wp_handleSyn (Q : State → World → Prop) (E : Stop → World → Prop) (w : World)
    (hok : ∀ active queue evs seq, Dequeued w.impl active queue → (active = none → queue = []) →
      Overheard w.impl.sequence evs → seq.seq = [] →
      Q (if active.isSome ∧ syncedLock w.impl = 0 then .lockBus else .monitorBus)
        { w with
          impl := { w.impl with
            lockCounter := syncedLock w.impl, sequence := seq, activeMessage := active,
            messageQueue := queue }
          events := w.events ++ evs }) : wp handleSyn Q E w := by
  have hcheck : ∀ evs seq, Overheard w.impl.sequence evs → seq.seq = [] →
      wp checkMessage Q E { w with
        impl := { w.impl with lockCounter := syncedLock w.impl, sequence := seq }
        events := w.events ++ evs } := by
    intro evs seq hevs hseq
    refine wp_checkMessage _ _ _ fun active queue hq hempty => hok active queue evs seq ?_ hempty hevs hseq
    cases hq with
    | keep => exact .keep
    | take message queue ha hq => exact .take message queue ha hq
  simp only [handleSyn, countLock, wp_bind, wp_modifyImpl, wp_getImpl]
  by_cases hsize : w.impl.sequence.size = 0
  · simp only [hsize, ne_eq, not_true_eq_false, if_false]
    have hc := hcheck [] w.impl.sequence .nothing (List.length_eq_zero_iff.1 hsize)
    unfold syncedLock at hc
    rw [List.append_nil, if_neg (not_not.2 hsize)] at hc
    exact hc
  · simp only [hsize, ne_eq, not_false_eq_true, if_true, wp_bind]
    obtain ⟨tel, htel, -⟩ := Telegram.parse_spec {} w.impl.sequence
    refine (wp_decodeSequence (fun _ w' => wp checkMessage Q E w') E _ (by rfl) htel).2 ?_
    have hc := hcheck (decodedEvents tel) {} ?_ rfl
    · unfold syncedLock at hc
      rw [if_pos hsize] at hc
      exact hc
    rcases hv : tel.isValid with _ | _
    · rw [decodedEvents, hv]
      exact .nothing
    · rw [decodedEvents, hv]
      exact .telegram tel (fun h => hsize (List.length_eq_zero_iff.2 h)) htel hv

/-- The second byte of a telegram for this participant, or for all. -/
def Addressed (impl : EbusImpl) (zz : Byte) : Prop :=
  zz = seqBroad ∨ zz = impl.address ∨ zz = impl.slaveAddress

instance (impl : EbusImpl) (zz : Byte) : Decidable (Addressed impl zz) :=
  inferInstanceAs (Decidable (_ ∨ _))

theorem wp_monitorBus (Q : State → World → Prop) (E : Stop → World → Prop) (w : World)
    (hcollect : ∀ b w', b ≠ seqSyn → (∀ qq, w.impl.sequence.seq = [qq] → ¬ Addressed w.impl b) →
      Adv w w' [.got b] → w'.impl = { w.impl with sequence := w.impl.sequence.pushBack b } → Q .monitorBus w')
    (haddressed : ∀ qq zz w', zz ≠ seqSyn → Adv w w' [.got zz] → w.impl.sequence.seq = [qq] →
      Addressed w.impl zz → w'.impl = { w.impl with sequence := ⟨[qq, zz], true⟩ } →
      Q .receiveMessage w')
    (hsyn : ∀ w', Adv w w' [.got seqSyn] → w'.impl = w.impl → wp handleSyn Q E w')
    (hstop : ∀ e w', Starve w e w' [] → E e w') : wp monitorBus Q E w := by
  rw [monitorBus, wp_bind]
  refine wp_read 1 0 _ _ w (fun b reads hr => ?_) hstop
  have ha := w.adv_got b reads hr
  by_cases hb : b = seqSyn
  · rw [if_pos hb]
    rw [hb] at ha ⊢
    exact hsyn _ ha rfl
  rw [if_neg hb]
  have hpush := ha.trans (.modify (w.got b)
    { w.impl with sequence := w.impl.sequence.pushBack b } rfl id)
  simp only [wp_bind, wp_getImpl, wp_setSequence]
  by_cases hsize : (w.impl.sequence.pushBack b).size = 2
  swap
  · have hno : ∀ qq, w.impl.sequence.seq = [qq] → ¬ Addressed w.impl b := by
      intro qq hqq
      refine absurd ?_ hsize
      rw [Sequence.size, Sequence.pushBack_seq, hqq]
      rfl
    have hq := hcollect b _ hb hno hpush rfl
    simp only [World.got, hsize, if_false]
    exact hq
  obtain ⟨qq, hqq⟩ : ∃ qq, w.impl.sequence.seq = [qq] := by
    simp only [Sequence.size, Sequence.pushBack_seq, List.length_append, List.length_singleton] at hsize
    exact List.length_eq_one_iff.1 (by omega)
  have hseq : w.impl.sequence.pushBack b = ⟨[qq, b], true⟩ := by
    rw [Sequence.pushBack, hqq]
    rfl
  have hat : Sequence.byteAt ⟨[qq, b], true⟩ 1 = .ok b := rfl
  have hcol := fun hno => hcollect b _ hb (fun _ _ => hno) hpush rfl
  have hadd := fun hz => haddressed qq b _ hb hpush hqq hz (by rw [hseq])
  simp only [World.got, hseq, hat, wp_liftRange_ok, wp_bind, show Sequence.size ⟨[qq, b], true⟩ = 2
    from rfl, if_true] at hcol hadd ⊢
  exact (wp_ite _ _ _ _ _).2 ⟨fun h => hadd h, fun h => hcol h⟩

/-! ### `receiveMessage` -/

/-- The raw bytes that `receiveMessage` takes for one message. -/
inductive Framed : List Byte → Prop
  | intro (qq zz pb sb nn : Byte) {d c : List Byte} (hnn : nn.toNat ≤ seqMaxBytes)
      (hd : ebusCode.Counted nn.toNat d) (hc : ebusCode.Counted 1 c) :
      Framed (qq :: zz :: pb :: sb :: nn :: (d ++ c))

theorem framed_iff (qq zz pb sb nn : Byte) (l : List Byte) :
    Framed (qq :: zz :: pb :: sb :: nn :: l) ↔
      nn.toNat ≤ seqMaxBytes ∧
        ∃ d c, ebusCode.Counted nn.toNat d ∧ ebusCode.Counted 1 c ∧ l = d ++ c := by
  constructor
  · intro h
    cases h with
    | intro _ _ _ _ _ hnn hd hc => exact ⟨hnn, _, _, hd, hc, rfl⟩
  · rintro ⟨hnn, d, c, hd, hc, rfl⟩
    exact .intro qq zz pb sb nn hnn hd hc

/-- The data and the CRC of a message are counted together. -/
theorem framed_iff_counted (qq zz pb sb nn : Byte) (l : List Byte) :
    Framed (qq :: zz :: pb :: sb :: nn :: l) ↔
      nn.toNat ≤ seqMaxBytes ∧ ebusCode.Counted (nn.toNat + 1) l := by
  rw [framed_iff]
  apply and_congr_right
  intro _
  constructor
  · rintro ⟨d, c, hd, hc, rfl⟩
    exact hd.append hc
  · exact fun h => h.split

theorem Framed.header {raw : List Byte} (h : Framed raw) :
    ∃ qq zz pb sb nn l, raw = qq :: zz :: pb :: sb :: nn :: l := by
  cases h with
  | intro qq zz pb sb nn hnn hd hc => exact ⟨qq, zz, pb, sb, nn, _, rfl⟩

/-- A stream starts with at most one message. -/
theorem Framed.append_inj {raw raw' t t' : List Byte} (h : Framed raw) (h' : Framed raw')
    (heq : raw ++ t = raw' ++ t') : raw = raw' ∧ t = t' := by
  obtain ⟨qq, zz, pb, sb, nn, l, rfl⟩ := h.header
  obtain ⟨qq', zz', pb', sb', nn', l', rfl⟩ := h'.header
  simp only [List.cons_append, List.cons.injEq] at heq
  obtain ⟨rfl, rfl, rfl, rfl, rfl, heq⟩ := heq
  obtain ⟨-, d, c, hd, hc, rfl⟩ := (framed_iff _ _ _ _ _ _).1 h
  obtain ⟨-, d', c', hd', hc', rfl⟩ := (framed_iff _ _ _ _ _ _).1 h'
  rw [List.append_assoc, List.append_assoc] at heq
  obtain ⟨rfl, hrest⟩ := hd.append_inj hd' heq
  obtain ⟨rfl, rfl⟩ := hc.append_inj hc' hrest
  exact ⟨rfl, rfl⟩

/-- The stream does not start with a whole message yet. -/
def Unframed (raw : List Byte) : Prop := ∀ p t, raw = p ++ t → ¬ Framed p

theorem unframed_header {raw : List Byte} (h : raw.length < 5) : Unframed raw := by
  rintro p t rfl hp
  obtain ⟨qq, zz, pb, sb, nn, l, rfl⟩ := hp.header
  simp only [List.cons_append, List.length_cons] at h
  omega

theorem unframed_data (qq zz pb sb : Byte) {nn : Byte} {r : List Byte}
    (h : ebusCode.Short nn.toNat r) : Unframed (qq :: zz :: pb :: sb :: nn :: r) := by
  intro p t heq hp
  obtain ⟨_, _, _, _, _, l, rfl⟩ := hp.header
  simp only [List.cons_append, List.cons.injEq] at heq
  obtain ⟨rfl, rfl, rfl, rfl, rfl, rfl⟩ := heq
  obtain ⟨-, d, c, hd, -, rfl⟩ := (framed_iff _ _ _ _ _ _).1 hp
  exact h d (c ++ t) (List.append_assoc _ _ _) hd

theorem unframed_crc (qq zz pb sb : Byte) {nn : Byte} {d r : List Byte}
    (hd : ebusCode.Counted nn.toNat d) (h : ebusCode.Short 1 r) :
    Unframed (qq :: zz :: pb :: sb :: nn :: (d ++ r)) := by
  intro p t heq hp
  obtain ⟨_, _, _, _, _, l, rfl⟩ := hp.header
  simp only [List.cons_append, List.cons.injEq] at heq
  obtain ⟨rfl, rfl, rfl, rfl, rfl, heq⟩ := heq
  obtain ⟨-, d', c, hd', hc, rfl⟩ := (framed_iff _ _ _ _ _ _).1 hp
  rw [List.append_assoc] at heq
  obtain ⟨rfl, rfl⟩ := hd.append_inj hd' heq
  exact h c t rfl hc

theorem not_reserved_of_le {b : Byte} (h : b.toNat ≤ seqMaxBytes) : ¬ ebusCode.Reserved b := by
  rintro (rfl | rfl) <;> exact absurd h (by decide)

/-- What is left after the reduction still has a second byte. -/
theorem Framed.byteAt_one {raw : List Byte} (h : Framed raw)
    (hzz : ∀ qq zz rest, raw = qq :: zz :: rest → ¬ ebusCode.Reserved zz) :
    ∃ b, Sequence.byteAt ⟨reduceBytes raw, false⟩ 1 = .ok b := by
  have hlen : 1 < (reduceBytes raw).length := by
    cases h with
    | intro qq zz pb sb nn hnn hd hc =>
      rw [reduceBytes_eq_unstuff, EscapeCode.unstuff, EscapeCode.length_unstuffFrom]
      have hz := hzz qq zz _ rfl
      have hn := not_reserved_of_le hnn
      simp only [List.countP_cons, hz, hn, not_false_eq_true, decide_true, if_true]
      omega
  exact ⟨(reduceBytes raw)[1], Sequence.byteAt_mk _ _ _ _ (List.getElem?_eq_getElem hlen)⟩

theorem Master.type_eq_BC (m : Master) : m.type = .BC ↔ m.zz = seqBroad := by
  rw [Master.type, typeOf]
  split_ifs with hb hm <;> simp [hb]

/-- The acknowledge byte of `receiveMessage` and its echo. -/
inductive Acknowledged (m : Master) : List Event → Prop
  | broadcast (h : m.type = .BC) : Acknowledged m []
  | ack (h : m.type ≠ .BC) (x : Byte) : Acknowledged m [.wrote seqAck, .got x]

/-- What `receiveMessage` publishes. -/
def receivedEvents (m : Master) (stored : Sequence) : List Event :=
  if m.type ≠ .MS then [.published stored.seq []] else []

/-- How far a stopped `acknowledgeMessage` came. -/
inductive AckStopped (l : List Byte) (sends : List SendResult) : List Event → Prop
  | refused (h : sends.headD .ok ≠ .ok)
      (hbc : ∀ (m : Master) (stored : Sequence), m.Text l stored → m.type ≠ .BC) :
      AckStopped l sends []
  | ack {m : Master} {stored : Sequence} (h : m.Text l stored) (hbc : m.type ≠ .BC)
      (hsend : sends.headD .ok = .ok) : AckStopped l sends [.wrote seqAck]
  | nak (h : ∀ (m : Master) (stored : Sequence), ¬ m.Text l stored) :
      AckStopped l sends [.wrote seqNak]

theorem wp_acknowledgeMessage (Q : State → World → Prop) (E : Stop → World → Prop) (w : World)
    {raw : List Byte} (hseq : w.impl.sequence = ⟨raw, true⟩)
    (hrange : ∀ w', (∀ b, Sequence.byteAt ⟨reduceBytes raw, false⟩ 1 ≠ .ok b) → Adv w w' [] →
      E .outOfRange w')
    (haccept : ∀ m stored seq evs w', m.Text (reduceBytes raw) stored → Acknowledged m evs →
      Adv w w' evs → seq.reduce.seq = reduceBytes raw →
      w'.impl = { w.impl with sequence := seq } →
      Q .processMessage { w' with events := w'.events ++ receivedEvents m stored })
    (hreject : ∀ evs w', (∀ (m : Master) (stored : Sequence), ¬ m.Text (reduceBytes raw) stored) →
      (evs = [] ∨ ∃ x, evs = [.wrote seqNak, .got x]) → Adv w w' evs →
      w'.impl = { w.impl with sequence := {} } → Q .monitorBus w')
    (hstop : ∀ e w' evs, Halt w e w' evs → AckStopped (reduceBytes raw) w.env.sends evs → E e w') :
    wp acknowledgeMessage Q E w := by
  have hcreate := Telegram.createMaster_reduce {} ⟨raw, true⟩
  rw [Sequence.reduce_extended] at hcreate
  simp only [acknowledgeMessage, wp_bind, wp_getImpl, hseq, hcreate]
  rcases Telegram.createMaster_spec {} (reduceBytes raw) with
    ⟨m, stored, seq, ht, hrun, hred, hat⟩ | ⟨_, _, _, _, e, he, hno, hrun⟩
  · have hdone : ∀ (evs : List Event) (w' : World), Acknowledged m evs →
        Adv { w with impl := { w.impl with sequence := seq } } w' evs →
        w'.impl = { w.impl with sequence := seq } →
        wp (deliverMessage (({} : Telegram).withMaster m stored m.crc SEQ_OK)) Q E w' := by
      intro evs w' hevs ha hi
      have hQ := haccept m stored seq evs w' ht hevs ((Adv.sequence w _).trans ha) hred hi
      rw [receivedEvents] at hQ
      simp only [deliverMessage, Telegram.withMaster, if_true]
      by_cases hms : m.type = .MS
      · simp only [hms, ne_eq, not_true_eq_false, if_false, List.append_nil] at hQ ⊢
        exact hQ
      · simp only [hms, ne_eq, not_false_eq_true, if_true, publish, wp_bind, wp_emit] at hQ ⊢
        exact hQ
    simp only [hrun, wp_liftRange_ok, wp_setSequence, hat]
    by_cases hbc : m.zz = seqBroad
    · simp only [hbc, ne_eq, not_true_eq_false, if_false]
      exact hdone [] _ (.broadcast (m.type_eq_BC.2 hbc)) (.refl _) rfl
    · have hne : m.type ≠ .BC := fun h => hbc (m.type_eq_BC.1 h)
      simp only [hbc, ne_eq, not_false_eq_true, if_true, wp_bind]
      refine wp_writeRead _ _ _ _ (fun x w' ha hi => ?_) fun e w' evs h hevs => ?_
      · exact hdone _ w' (.ack hne x) ha hi
      · refine hstop e w' evs ((Adv.sequence w _).halt h) ?_
        rcases hevs with ⟨rfl, hs⟩ | ⟨rfl, hs⟩
        · refine .refused hs fun m' stored' ht' => ?_
          obtain ⟨rfl, -⟩ := ht.unique ht'
          exact hne
        · exact .ack ht hne hs
  · obtain ⟨tel, he, hrun⟩ : ∃ tel : Telegram, tel.masterState ≠ SEQ_OK ∧
        ({} : Telegram).createMaster ⟨reduceBytes raw, false⟩ = .ok (tel, ⟨reduceBytes raw, false⟩) :=
      ⟨_, he, hrun⟩
    have hdone : ∀ (evs : List Event) (w' : World), (evs = [] ∨ ∃ x, evs = [.wrote seqNak, .got x]) →
        Adv { w with impl := { w.impl with sequence := ⟨reduceBytes raw, false⟩ } } w' evs →
        w'.impl = { w.impl with sequence := ⟨reduceBytes raw, false⟩ } →
        wp (deliverMessage tel) Q E w' := by
      intro evs w' hevs ha hi
      simp only [deliverMessage, he, if_false, wp_bind, wp_setSequence]
      have hadv := ((Adv.sequence w _).trans ha).trans (.sequence w' {})
      rw [List.append_nil] at hadv
      exact hreject evs _ hno hevs hadv (by rw [hi])
    simp only [hrun, wp_liftRange_ok, wp_setSequence]
    rcases hb : Sequence.byteAt ⟨reduceBytes raw, false⟩ 1 with e | b
    · exact hrange _ (by simp [hb]) (.sequence w _)
    simp only [wp_liftRange_ok]
    by_cases hbc : b = seqBroad
    · simp only [hbc, ne_eq, not_true_eq_false, if_false]
      exact hdone [] _ (.inl rfl) (.refl _) rfl
    · simp only [hbc, ne_eq, not_false_eq_true, if_true, wp_bind, he, if_false]
      refine wp_writeRead _ _ _ _ (fun x w' ha hi => ?_) fun e w' evs h hevs => ?_
      · exact hdone _ w' (.inr ⟨x, rfl⟩) ha hi
      · refine hstop e w' evs ((Adv.sequence w _).halt h) ?_
        rcases hevs with ⟨rfl, hs⟩ | ⟨rfl, -⟩
        · exact .refused hs fun m stored ht => absurd ht (hno m stored)
        · exact .nak hno

/-- How far a stopped `receiveMessage` came: while it read, or at the acknowledge byte. -/
inductive ReceiveStopped (qq zz : Byte) (env : Env) : List Event → Prop
  | reading (r : List Byte) (h : Unframed (qq :: zz :: r)) (hdry : Dry env.reads r) :
      ReceiveStopped qq zz env (r.map .got)
  | acking {r : List Byte} {evs : List Event} {reads : List RecvResult}
      (hr : Framed (qq :: zz :: r)) (hreads : env.reads = r.map .byte ++ reads)
      (h : AckStopped (reduceBytes (qq :: zz :: r)) env.sends evs) :
      ReceiveStopped qq zz env (r.map .got ++ evs)

theorem wp_setActiveState (state : Int) (Q : PUnit → World → Prop) (E : Stop → World → Prop)
    (w : World)
    (hsome : ∀ message, w.impl.activeMessage = some message →
      Q ⟨⟩ { w with impl := { w.impl with activeMessage := some { message with state } } })
    (hnone : w.impl.activeMessage = none → E .nullDeref w) :
    wp (setActiveState state) Q E w := by
  simp only [setActiveState, wp_bind, wp_getImpl]
  rcases ha : w.impl.activeMessage with _ | message
  · exact hnone ha
  · exact hsome message ha

theorem wp_receiveMessage (Q : State → World → Prop) (E : Stop → World → Prop) (w : World)
    {qq zz : Byte} (hseq : w.impl.sequence = ⟨[qq, zz], true⟩)
    (hrange : ∀ r w', Framed (qq :: zz :: r) →
      (∀ b, Sequence.byteAt ⟨reduceBytes (qq :: zz :: r), false⟩ 1 ≠ .ok b) →
      Adv w w' (r.map .got) → E .outOfRange w')
    (hcrash : ∀ pb sb nn w', nn.toNat > seqMaxBytes → Adv w w' [.got pb, .got sb, .got nn] →
      w.impl.activeMessage = none → E .nullDeref w')
    (hoversize : ∀ pb sb nn message w', nn.toNat > seqMaxBytes →
      Adv w w' [.got pb, .got sb, .got nn] → w.impl.activeMessage = some message →
      w'.impl = { w.impl with
        sequence := ⟨[qq, zz, pb, sb, nn], true⟩
        activeMessage := some { message with state := EBUS_ERR_TRANSMIT } } →
      Q .monitorBus w'.reset)
    (haccept : ∀ r m stored seq evs w', Framed (qq :: zz :: r) →
      m.Text (reduceBytes (qq :: zz :: r)) stored → Acknowledged m evs →
      Adv w w' (r.map .got ++ evs) → seq.reduce.seq = reduceBytes (qq :: zz :: r) →
      w'.impl = { w.impl with sequence := seq } →
      Q .processMessage { w' with events := w'.events ++ receivedEvents m stored })
    (hreject : ∀ r evs w', Framed (qq :: zz :: r) →
      (∀ (m : Master) (stored : Sequence), ¬ m.Text (reduceBytes (qq :: zz :: r)) stored) →
      (evs = [] ∨ ∃ x, evs = [.wrote seqNak, .got x]) → Adv w w' (r.map .got ++ evs) →
      w'.impl = { w.impl with sequence := {} } → Q .monitorBus w')
    (hstop : ∀ e w' evs, Halt w e w' evs → ReceiveStopped qq zz w.env evs → E e w') :
    wp receiveMessage Q E w := by
  rw [receiveMessage, wp_bind]
  refine wp_receiveByte _ _ w (fun pb w₁ h₁ hi₁ => ?_) fun e w' h =>
    hstop e w' _ h.toHalt (.reading [] (unframed_header (by simp)) h.dry)
  rw [wp_bind]
  refine wp_receiveByte _ _ w₁ (fun sb w₂ h₂ hi₂ => ?_) fun e w' h =>
    hstop e w' _ (h₁.halt h.toHalt) (.reading [pb] (unframed_header (by simp)) (h₁.starve h).dry)
  have h₁₂ := h₁.trans h₂
  rw [wp_bind]
  refine wp_receiveByte _ _ w₂ (fun nn w₃ h₃ hi₃ => ?_) fun e w' h =>
    hstop e w' _ (h₁₂.halt h.toHalt)
      (.reading [pb, sb] (unframed_header (by simp)) (h₁₂.starve h).dry)
  have h₁₃ : Adv w w₃ [.got pb, .got sb, .got nn] := h₁₂.trans h₃
  have hi : w₃.impl = { w.impl with sequence := ⟨[qq, zz, pb, sb, nn], true⟩ } := by
    rw [hi₃, hi₂, hi₁, hseq]
    rfl
  have hat : Sequence.byteAt ⟨[qq, zz, pb, sb, nn], true⟩ 4 = .ok nn := rfl
  simp only [wp_bind, wp_getImpl, hi, hat, wp_liftRange_ok]
  by_cases hnn : nn.toNat > seqMaxBytes
  · simp only [hnn, if_true, wp_bind]
    refine wp_setActiveState _ _ _ w₃ (fun message hm => ?_) fun hm => ?_
    · rw [hi] at hm
      simp only [wp_reset]
      have hm' : w.impl.activeMessage = some message := hm
      refine hoversize pb sb nn message _ hnn ?_ hm' (by rw [hi])
      refine h₁₃.trans (.modify w₃ _ ?_ id)
      rw [hi]
      simp only [EbusImpl.shell, hm', Option.map_some, Message.core]
    · rw [hi] at hm
      exact hcrash pb sb nn w₃ hnn h₁₃ hm
  · simp only [hnn, if_false, receiveCounted, wp_bind, wp_get]
    refine wp_receiveBytes _ _ _ _ w₃ _ (by rw [hi]) (Nat.lt_succ_self _) (fun d w₄ hd h₄ hi₄ => ?_)
      fun e w' r h hr => ?_
    swap
    · refine hstop e w' _ (h₁₃.halt h.toHalt)
        (.reading (pb :: sb :: nn :: r) (unframed_data qq zz pb sb hr) ?_)
      have hdry := (h₁₃.starve h).dry
      simpa using hdry
    have h₁₄ := h₁₃.trans h₄
    refine wp_receiveBytes _ _ _ _ w₄ _ (by rw [hi₄]) (Nat.lt_succ_self _) (fun c w₅ hc h₅ hi₅ => ?_)
      fun e w' r h hshort => ?_
    swap
    · refine hstop e w' _ (h₁₄.halt h.toHalt) ?_
      have hdry := (h₁₄.starve h).dry
      simp only [gotBytes_append, gotBytes_map_got, gotBytes_got, gotBytes_nil] at hdry
      have hmap : ReceiveStopped qq zz w.env ((pb :: sb :: nn :: (d ++ r)).map .got) :=
        .reading _ (unframed_crc qq zz pb sb hd hshort) hdry
      rw [List.map_cons, List.map_cons, List.map_cons, List.map_append] at hmap
      exact hmap
    have hframed : Framed (qq :: zz :: pb :: sb :: nn :: (d ++ c)) :=
      .intro qq zz pb sb nn (Nat.le_of_not_lt hnn) hd hc
    have h₁₅ : Adv w w₅ ((pb :: sb :: nn :: (d ++ c)).map .got) := by
      have h := h₁₄.trans h₅
      rw [List.map_cons, List.map_cons, List.map_cons, List.map_append]
      exact h
    have hi' : w₅.impl =
        { w.impl with sequence := ⟨qq :: zz :: pb :: sb :: nn :: (d ++ c), true⟩ } := by
      rw [hi₅, hi₄, hi]
      simp
    have hsends : w₅.env.sends = w.env.sends := by
      rw [h₁₅.sends, wroteBytes_map_got]
      rfl
    refine wp_acknowledgeMessage _ _ w₅ (by rw [hi']) ?_ ?_ ?_ ?_
    · intro w₆ hno ha
      have h := h₁₅.trans ha
      rw [List.append_nil] at h
      exact hrange _ w₆ hframed hno h
    · intro m stored seq evs w₆ ht hevs ha hred hi₆
      exact haccept _ m stored seq evs w₆ hframed ht hevs (h₁₅.trans ha) hred (by rw [hi₆, hi'])
    · intro evs w₆ hno hevs ha hi₆
      exact hreject _ evs w₆ hframed hno hevs (h₁₅.trans ha) (by rw [hi₆, hi'])
    · intro e w₆ evs h hevs
      rw [hsends] at hevs
      have hreads := h₁₅.reads
      rw [gotBytes_map_got] at hreads
      exact hstop e w₆ _ (h₁₅.halt h) (.acking hframed hreads hevs)

/-- `receiveMessage` on a stream with a size byte out of bounds. -/
theorem wp_receiveMessage_oversize (Q : State → World → Prop) (E : Stop → World → Prop) (w : World)
    {qq zz pb sb nn : Byte} {rest : List RecvResult} {message : Message}
    (hseq : w.impl.sequence = ⟨[qq, zz], true⟩)
    (hreads : w.env.reads = .byte pb :: .byte sb :: .byte nn :: rest) (hnn : nn.toNat > seqMaxBytes)
    (hmessage : w.impl.activeMessage = some message)
    (hok : ∀ w' : World, w'.events = w.events ++ [.got pb, .got sb, .got nn] → Q .monitorBus w'.reset) :
    wp receiveMessage Q E w := by
  rw [receiveMessage, wp_bind]
  refine wp_receiveByte_byte _ _ w hreads fun w₁ h₁ hr₁ hi₁ => ?_
  rw [wp_bind]
  refine wp_receiveByte_byte _ _ w₁ hr₁ fun w₂ h₂ hr₂ hi₂ => ?_
  rw [wp_bind]
  refine wp_receiveByte_byte _ _ w₂ hr₂ fun w₃ h₃ _ hi₃ => ?_
  have hi : w₃.impl = { w.impl with sequence := ⟨[qq, zz, pb, sb, nn], true⟩ } := by
    rw [hi₃, hi₂, hi₁, hseq]
    rfl
  have hat : Sequence.byteAt ⟨[qq, zz, pb, sb, nn], true⟩ 4 = .ok nn := rfl
  simp only [wp_bind, wp_getImpl, hi, hat, wp_liftRange_ok, hnn, if_true]
  refine wp_setActiveState _ _ _ w₃ (fun _ _ => ?_) fun hm => ?_
  · simp only [wp_reset, wp_pure]
    exact hok _ ((h₁.trans h₂).trans h₃).events
  · rw [hi, hmessage] at hm
    cases hm

/-! ### `processMessage` and `sendResponse` -/

/-- The call of the process callback. -/
def processEvents (impl : EbusImpl) (stored : Sequence) : List Event :=
  if impl.processing then [.processed stored.seq] else []

/-- The telegram that `processMessage` builds from an accepted message and an accepted response. -/
def answeredTelegram (m : Master) (stored : Sequence) (s : Slave) (storedSlave : Sequence) :
    Telegram :=
  (({} : Telegram).withMaster m stored m.crc SEQ_OK).withSlave s storedSlave s.crc SEQ_OK

theorem wp_processMessage (Q : State → World → Prop) (E : Stop → World → Prop) (w : World)
    {m : Master} {stored : Sequence} (ht : m.Text w.impl.sequence.reduce.seq stored)
    (hanswer : ∀ s storedSlave seq, m.type = .MS → w.impl.processing = true →
      w.env.reaction = .response → s.Text w.env.response storedSlave →
      Q .sendResponse { w with
        impl := { w.impl with
          sequence := seq
          passiveMessage := some ⟨0, answeredTelegram m stored s storedSlave, 0⟩ }
        events := w.events ++ processEvents w.impl stored })
    (hdrop : Q .monitorBus { w with
      impl := { w.impl with sequence := {} }
      events := w.events ++ processEvents w.impl stored }) : wp processMessage Q E w := by
  have hcreate := Telegram.createMaster_reduce {} w.impl.sequence
  rcases Telegram.createMaster_spec {} w.impl.sequence.reduce.seq with
    ⟨m', stored', seq, ht', hrun, -, -⟩ | ⟨_, _, _, _, _, -, hno, -⟩
  swap
  · exact absurd ht (hno m stored)
  obtain ⟨rfl, rfl⟩ := ht.unique ht'
  simp only [processMessage, wp_bind, wp_getImpl, hcreate, hrun, wp_liftRange_ok, wp_setSequence]
  have hprocess : ∀ Q : Reaction × List Byte → World → Prop,
      (w.impl.processing = true → Q (w.env.reaction, w.env.response) { w with
        impl := { w.impl with sequence := seq }
        events := w.events ++ processEvents w.impl stored }) →
      (w.impl.processing = false → Q (.nofunction, []) { w with
        impl := { w.impl with sequence := seq }
        events := w.events ++ processEvents w.impl stored }) →
      wp (process stored.seq) Q E { w with impl := { w.impl with sequence := seq } } := by
    intro Q hon hoff
    rcases hp : w.impl.processing with _ | _
    · have hq := hoff hp
      simp only [processEvents, hp, Bool.false_eq_true, if_false, List.append_nil] at hq
      simp only [process, wp_bind, wp_getImpl, hp, Bool.false_eq_true, if_false, wp_pure]
      exact hq
    · have hq := hon hp
      simp only [processEvents, hp, if_true] at hq
      simp only [process, wp_bind, wp_getImpl, hp, if_true, wp_emit, wp_get, wp_pure]
      exact hq
  refine hprocess _ (fun hp => ?_) fun hp => ?_
  swap
  · simp only [reduceCtorEq, if_false, wp_bind, wp_setSequence, wp_pure]
    exact hdrop
  by_cases hr : w.env.reaction = .response
  swap
  · simp only [hr, if_false, wp_bind, wp_setSequence, wp_pure]
    exact hdrop
  by_cases hms : m.type = .MS
  swap
  · simp only [hr, if_true, Telegram.withMaster, hms, if_false, wp_bind, wp_setSequence, wp_pure]
    exact hdrop
  simp only [hr, if_true, Telegram.withMaster, hms, createSlaveFrom_eq, wp_bind]
  rcases Telegram.createSlave_spec (({} : Telegram).withMaster m stored m.crc SEQ_OK) w.env.response with
    ⟨s, storedSlave, seq', hs, hrun'⟩ | ⟨slave, seq', nn, crc, e, he, -, hrun'⟩
  · simp only [Telegram.withMaster, hms] at hrun'
    simp only [hrun', wp_liftRange_ok, Telegram.withSlave, if_true, wp_bind, wp_modifyImpl, wp_pure]
    have hq := hanswer s storedSlave seq hms hp hr hs
    simp only [answeredTelegram, Telegram.withMaster, Telegram.withSlave, hms] at hq
    exact hq
  · simp only [Telegram.withMaster, hms] at hrun'
    simp only [hrun', wp_liftRange_ok, he, if_false, wp_bind, wp_setSequence, wp_pure]
    exact hdrop

/-- The bytes of a stored part and its CRC, as they are written. -/
def partBytes (stored : Sequence) (crc : Byte) : List Byte := stored.seq ++ [crc]

/-- A part was written, and repeated after a NAK; `last` is the acknowledge byte that counts. -/
inductive PartSent (l : List Byte) : List Event → Byte → Prop
  | once {evs : List Event} {ack : Byte} (h : Echoed l evs) (hack : ack ≠ seqNak) :
      PartSent l (evs ++ [.got ack]) ack
  | again {evs evs' : List Event} {ack : Byte} (h : Echoed l evs) (h' : Echoed l evs') :
      PartSent l (evs ++ [.got seqNak] ++ (evs' ++ [.got ack])) ack

theorem wp_sendResponse (Q : State → World → Prop) (E : Stop → World → Prop) (w : World)
    {message : Message} (hmessage : w.impl.passiveMessage = some message)
    (hok : ∀ evs last w', PartSent (partBytes message.telegram.slave message.telegram.slaveCRC) evs last →
      Adv w w' evs → w'.impl = w.impl →
      Q .monitorBus (World.reset { w' with
        events := w'.events ++
          [.published message.telegram.master.seq message.telegram.slave.seq] }))
    (hstop : ∀ e w' evs, Halt w e w' evs → E e w') : wp sendResponse Q E w := by
  simp only [sendResponse, wp_bind, wp_getImpl, hmessage, wp_deref_some]
  have hdone : ∀ evs last w', PartSent (partBytes message.telegram.slave message.telegram.slaveCRC)
      evs last → Adv w w' evs → w'.impl = w.impl →
      wp (finishResponse message last) Q E w' := by
    intro evs last w' hp ha hi
    simp only [finishResponse, wp_bind, wp_modifyImpl, publish, wp_emit, wp_reset, wp_pure]
    exact hok evs last w' hp ha hi
  refine wp_sendPart _ _ _ _ w (fun evs w₁ he h₁ hi₁ => ?_) fun e w' evs h => hstop e w' _ h
  refine wp_read 0 10000 _ _ w₁ (fun first reads hr => ?_) fun e w' h => hstop e w' _ (h₁.halt h.toHalt)
  have h₂ := h₁.trans (w₁.adv_got first reads hr)
  by_cases hnak : first = seqNak
  · simp only [hnak, if_true, wp_bind]
    rw [hnak] at h₂
    refine wp_sendPart _ _ _ _ _ (fun evs' w₃ he' h₃ hi₃ => ?_) fun e w' evs h =>
      hstop e w' _ (h₂.halt h)
    refine wp_read 0 10000 _ _ w₃ (fun last reads hr => ?_) fun e w' h =>
      hstop e w' _ ((h₂.trans h₃).halt h.toHalt)
    have h₄ := h₃.trans (w₃.adv_got last reads hr)
    exact hdone _ last _ (.again he he') (h₂.trans h₄) (hi₃.trans hi₁)
  · simp only [hnak, if_false]
    exact hdone _ first _ (.once he hnak) h₂ hi₁

/-! ### The active side -/

/-- Replaces the active message. -/
def World.setActive (w : World) (message : Message) : World :=
  { w with impl := { w.impl with activeMessage := some message } }

theorem World.adv_setActive {w : World} {message : Message}
    (h : w.impl.activeMessage = some message) (message' : Message)
    (hcore : message'.core = message.core) :
    Adv w (w.setActive message') [] := by
  refine .modify w _ ?_ id
  simp only [EbusImpl.shell, h, Option.map_some, hcore]

/-- The counter after the arbitration was lost to the byte `b`. -/
def lostLock (impl : EbusImpl) (qq b : Byte) : Int :=
  if b &&& 0x0f ≠ qq &&& 0x0f then impl.lockCounterMax else 1

theorem Telegram.getMasterQQ_eq {tel : Telegram} {qq : Byte} {rest : List Byte}
    (hqq : tel.master.seq = qq :: rest) : tel.getMasterQQ = .ok qq := by
  rw [Telegram.getMasterQQ]
  rcases hm : tel.master with ⟨l, e⟩
  rw [hm] at hqq
  exact Sequence.byteAt_mk _ _ _ _ (by rw [show l = qq :: rest from hqq]; rfl)

theorem wp_lockBus (Q : State → World → Prop) (E : Stop → World → Prop) (w : World)
    {message : Message} (hmessage : w.impl.activeMessage = some message) {qq : Byte}
    {rest : List Byte} (hqq : message.telegram.master.seq = qq :: rest)
    (hwon : ∀ w', Adv w w' [.wrote qq, .got qq] → w'.impl = w.impl → Q .sendMessage w')
    (hlost : ∀ b w', b ≠ qq → Adv w w' [.wrote qq, .got b] →
      w'.impl = { w.impl with lockCounter := lostLock w.impl qq b } → Q .monitorBus w')
    (hstop : ∀ e w' evs, Halt w e w' evs → E e w') : wp lockBus Q E w := by
  have hat := Telegram.getMasterQQ_eq hqq
  simp only [lockBus, wp_bind, wp_getImpl, hmessage, wp_deref_some, hat, wp_liftRange_ok]
  refine wp_write qq _ _ w (fun hs => ?_) fun e w' _ h => hstop e w' _ h
  have h₁ := w.adv_wrote qq hs
  refine wp_read 0 10000 _ _ _ (fun b reads hr => ?_) fun e w' h => hstop e w' _ (h₁.halt h.toHalt)
  have h₂ := h₁.trans (World.adv_got _ b reads hr)
  by_cases hb : b = qq
  · subst hb
    simp only [ne_eq, not_true_eq_false, if_false, wp_pure]
    exact hwon _ h₂ rfl
  · have hlock : ∀ lock : Int, lostLock w.impl qq b = lock → Q .monitorBus
        { (w.wrote qq).got b with impl := { w.impl with lockCounter := lock } } := by
      rintro _ rfl
      exact hlost b _ hb (h₂.trans (.modify _ _ rfl id)) rfl
    simp only [hb, ne_eq, not_false_eq_true, if_true, wp_bind, wp_ite, wp_modifyImpl, wp_pure]
    exact ⟨fun h => hlock _ (if_pos h), fun h => hlock 1 (if_neg h)⟩

theorem wp_sendAttempt (retry : Nat) (Q : Option State → World → Prop) (E : Stop → World → Prop)
    (w : World) {message : Message} (hmessage : w.impl.activeMessage = some message)
    (hbroadcast : message.telegram.type = .BC → ∀ evs w',
      Echoed (message.telegram.master.seq.drop retry ++ [message.telegram.masterCRC]) evs →
      Adv w w' evs → w'.impl = w.impl → Q (some .freeBus) w')
    (hack : message.telegram.type ≠ .BC → ∀ evs ack w' state,
      Echoed (message.telegram.master.seq.drop retry ++ [message.telegram.masterCRC]) evs →
      Adv w w' (evs ++ [.got ack]) →
      w'.impl = { w.impl with
        activeMessage := some { message with telegram := message.telegram.setSlaveACK ack, state } } →
      (ack = seqAck → state = message.state →
        Q (some (if message.telegram.type = .MM then .freeBus else .receiveResponse)) w') ∧
      (ack ≠ seqAck → ack ≠ seqNak → state = EBUS_ERR_TRANSMIT → Q (some .freeBus) w') ∧
      (ack = seqNak → state = (if retry ≠ 1 then EBUS_ERR_TRANSMIT else message.state) → Q none w'))
    (hstop : ∀ e w' evs, Halt w e w' evs → E e w') : wp (sendAttempt retry) Q E w := by
  simp only [sendAttempt, wp_bind, wp_getImpl, hmessage, wp_deref_some]
  refine wp_sendPart _ _ _ _ w (fun evs w₁ he h₁ hi₁ => ?_) fun e w' evs h => hstop e w' _ h
  by_cases hbc : message.telegram.type = .BC
  · simp only [hbc, if_true, wp_pure]
    exact hbroadcast hbc evs w₁ he h₁ hi₁
  simp only [hbc, if_false, wp_bind]
  refine wp_read 0 10000 _ _ w₁ (fun ack reads hr => ?_) fun e w' h => hstop e w' _ (h₁.halt h.toHalt)
  have h₂ := h₁.trans (w₁.adv_got ack reads hr)
  have hm₂ : (w₁.got ack).impl.activeMessage = some message := by
    rw [← hmessage, ← hi₁]
    rfl
  have hnext : ∀ state, Adv w ((w₁.got ack).setActive
      { message with telegram := message.telegram.setSlaveACK ack, state }) (evs ++ [.got ack]) := by
    intro state
    have h := h₂.trans (World.adv_setActive hm₂
      { message with telegram := message.telegram.setSlaveACK ack, state } rfl)
    rw [List.append_nil] at h
    exact h
  have himpl : ∀ state, ((w₁.got ack).setActive
      { message with telegram := message.telegram.setSlaveACK ack, state }).impl =
      { w.impl with
        activeMessage := some { message with telegram := message.telegram.setSlaveACK ack, state } } := by
    intro state
    rw [← hi₁]
    rfl
  have hQ := fun state => hack hbc evs ack _ state he (hnext state) (himpl state)
  simp only [wp_setActive]
  by_cases ha : ack = seqAck
  · have hq := (hQ message.state).1 ha rfl
    simp only [ha, ne_eq, not_true_eq_false, false_and, if_false, if_true] at hq ⊢
    split_ifs at hq ⊢ <;> exact hq
  by_cases hn : ack = seqNak
  · have hq := fun state => (hQ state).2.2 hn
    simp only [hn, ne_eq, not_true_eq_false, and_false, if_false,
      show seqNak ≠ seqAck by decide] at hq ⊢
    by_cases hr1 : retry = 1
    · simp only [hr1, not_true_eq_false, if_false] at hq ⊢
      exact hq _ rfl
    · simp only [hr1, not_false_eq_true, if_true, wp_bind, wp_setActive, wp_pure] at hq ⊢
      exact hq _ rfl
  · have hq := (hQ EBUS_ERR_TRANSMIT).2.1 ha hn rfl
    simp only [ha, hn, ne_eq, not_false_eq_true, and_self, if_true, wp_bind, wp_setActive,
      wp_pure] at hq ⊢
    exact hq

/-- The master part was written after the first byte, which `lockBus` had written, and repeated from
the first byte on after a NAK; the last argument is the acknowledge byte that counts. -/
inductive MessageSent (tel : Telegram) : List Event → Byte → Prop
  | once {evs : List Event} {ack : Byte}
      (h : Echoed (tel.master.seq.drop 1 ++ [tel.masterCRC]) evs) (hack : ack ≠ seqNak) :
      MessageSent tel (evs ++ [.got ack]) ack
  | again {evs evs' : List Event} {ack : Byte}
      (h : Echoed (tel.master.seq.drop 1 ++ [tel.masterCRC]) evs)
      (h' : Echoed (partBytes tel.master tel.masterCRC) evs') :
      MessageSent tel (evs ++ [.got seqNak] ++ (evs' ++ [.got ack])) ack

theorem wp_sendMessage (Q : State → World → Prop) (E : Stop → World → Prop) (w : World)
    {message : Message} (hmessage : w.impl.activeMessage = some message)
    (hbroadcast : message.telegram.type = .BC → ∀ evs w',
      Echoed (message.telegram.master.seq.drop 1 ++ [message.telegram.masterCRC]) evs →
      Adv w w' evs → w'.impl = w.impl → Q .freeBus w')
    (hack : message.telegram.type ≠ .BC → ∀ evs w', MessageSent message.telegram evs seqAck →
      Adv w w' evs →
      w'.impl = { w.impl with
        activeMessage :=
          some { message with telegram := message.telegram.setSlaveACK seqAck } } →
      Q (if message.telegram.type = .MM then .freeBus else .receiveResponse) w')
    (hfail : message.telegram.type ≠ .BC → ∀ evs last w', last ≠ seqAck →
      MessageSent message.telegram evs last → Adv w w' evs →
      w'.impl = { w.impl with
        activeMessage := some { message with
          telegram := message.telegram.setSlaveACK last, state := EBUS_ERR_TRANSMIT } } →
      Q .freeBus w')
    (hstop : ∀ e w' evs, Halt w e w' evs → E e w') : wp sendMessage Q E w := by
  rw [sendMessage, wp_bind]
  refine wp_sendAttempt 1 _ _ w hmessage (fun hbc evs w' he h hi => hbroadcast hbc evs w' he h hi)
    (fun hbc evs ack w₁ state he h₁ hi₁ => ⟨?_, ?_, ?_⟩) hstop
  · rintro rfl rfl
    simp only [wp_pure]
    exact hack hbc _ w₁ (.once he (by decide)) h₁ hi₁
  · rintro ha hn rfl
    simp only [wp_pure]
    exact hfail hbc _ ack w₁ ha (.once he hn) h₁ hi₁
  rintro rfl rfl
  simp only [wp_bind]
  have hm₁ : w₁.impl.activeMessage =
      some { message with telegram := message.telegram.setSlaveACK seqNak } := by
    rw [hi₁]
    rfl
  refine wp_sendAttempt 0 _ _ w₁ hm₁ (fun hbc' => absurd hbc' hbc)
    (fun _ evs' ack w₂ state he' h₂ hi₂ => ⟨?_, ?_, ?_⟩) fun e w' evs' h => hstop e w' _ (h₁.halt h)
  · rintro rfl rfl
    simp only [wp_pure]
    refine hack hbc _ w₂ (.again he he') (h₁.trans h₂) ?_
    rw [hi₂, hi₁]
    rfl
  · rintro ha hn rfl
    simp only [wp_pure]
    refine hfail hbc _ ack w₂ ha (.again he he') (h₁.trans h₂) ?_
    rw [hi₂, hi₁]
    rfl
  · rintro rfl rfl
    simp only [wp_pure]
    refine hfail hbc _ seqNak w₂ (by decide) (.again he he') (h₁.trans h₂) ?_
    rw [hi₂, hi₁]
    rfl

/-- The raw bytes that `receiveResponse` takes for one response. -/
inductive Response : List Byte → Prop
  | intro (nn : Byte) {r : List Byte} (hnn : nn.toNat ≤ seqMaxBytes)
      (hr : ebusCode.Counted (nn.toNat + 1) r) : Response (nn :: r)

theorem Response.append_inj {raw raw' t t' : List Byte} (h : Response raw) (h' : Response raw')
    (heq : raw ++ t = raw' ++ t') : raw = raw' ∧ t = t' := by
  cases h with
  | intro nn _ hr =>
    cases h' with
    | intro nn' _ hr' =>
      simp only [List.cons_append, List.cons.injEq] at heq
      obtain ⟨rfl, heq⟩ := heq
      obtain ⟨rfl, rfl⟩ := hr.append_inj hr' heq
      exact ⟨rfl, rfl⟩

/-- The stream does not start with a whole response yet. -/
def Unanswered (raw : List Byte) : Prop := ∀ p t, raw = p ++ t → ¬ Response p

theorem unanswered_nil : Unanswered [] := by
  intro p t h hp
  cases hp with
  | intro nn => exact nomatch h

theorem unanswered_data {nn : Byte} {r : List Byte} (h : ebusCode.Short (nn.toNat + 1) r) :
    Unanswered (nn :: r) := by
  intro p t heq hp
  cases hp with
  | intro nn' _ hr =>
    simp only [List.cons_append, List.cons.injEq] at heq
    obtain ⟨rfl, rfl⟩ := heq
    exact h _ t rfl hr

/-- How far a stopped `acknowledgeResponse` came. -/
inductive ResponseStopped (l : List Byte) (sends : List SendResult) : List Event → Prop
  | refused (h : sends.headD .ok ≠ .ok) : ResponseStopped l sends []
  | ack {s : Slave} {stored : Sequence} (h : s.Text l stored) (hsend : sends.headD .ok = .ok) :
      ResponseStopped l sends [.wrote seqAck]
  | nak (h : ∀ (s : Slave) (stored : Sequence), ¬ s.Text l stored) :
      ResponseStopped l sends [.wrote seqNak]

/-- The telegram after its response was accepted. -/
def respondedTelegram (tel : Telegram) (s : Slave) (stored : Sequence) : Telegram :=
  (tel.withSlave s stored s.crc SEQ_OK).setMasterACK seqAck

/-- The slave fields of a telegram, after a response was rejected. -/
def rejectedTelegram (tel : Telegram) (slave : Sequence) (nn : Nat) (crc : Byte) (e : Int) :
    Telegram :=
  { tel with slave := slave, slaveNN := nn, slaveCRC := crc, slaveState := e, masterACK := seqNak }

theorem wp_acknowledgeResponse (retry : Nat) (raw : List Byte) (Q : Option State → World → Prop)
    (E : Stop → World → Prop) (w : World) {message : Message}
    (hmessage : w.impl.activeMessage = some message)
    (haccept : ∀ s stored x w', s.Text (reduceBytes raw) stored →
      Adv w w' [.wrote seqAck, .got x] →
      w'.impl = { w.impl with
        activeMessage :=
          some { message with telegram := respondedTelegram message.telegram s stored } } →
      Q (some .freeBus) w')
    (hreject : ∀ slave nn crc e x w',
      (∀ (s : Slave) (stored : Sequence), ¬ s.Text (reduceBytes raw) stored) →
      Adv w w' [.wrote seqNak, .got x] →
      w'.impl = { w.impl with
        activeMessage := some { message with
          telegram := rejectedTelegram message.telegram slave nn crc e
          state := if retry ≠ 1 then EBUS_ERR_TRANSMIT else message.state } } → Q none w')
    (hstop : ∀ e w' evs, Halt w e w' evs → ResponseStopped (reduceBytes raw) w.env.sends evs →
      E e w') : wp (acknowledgeResponse retry ⟨raw, true⟩) Q E w := by
  have hcreate := Telegram.createSlave_reduce message.telegram ⟨raw, true⟩
  rw [Sequence.reduce_extended] at hcreate
  simp only [acknowledgeResponse, wp_bind, wp_getImpl, hmessage, wp_deref_some, hcreate]
  rcases Telegram.createSlave_spec message.telegram (reduceBytes raw) with
    ⟨s, stored, seq, ht, hrun⟩ | ⟨slave, seq, nn, crc, e, he, hno, hrun⟩
  · simp only [hrun, wp_liftRange_ok, wp_setActive, Telegram.withSlave, if_true]
    let accepted : Message :=
      { message with telegram := message.telegram.withSlave s stored s.crc SEQ_OK }
    have h₁ := World.adv_setActive hmessage accepted rfl
    refine wp_writeRead _ _ _ (w.setActive accepted) (fun x w₂ h₂ hi₂ => ?_) fun e w' evs h hevs => ?_
    · simp only [wp_pure]
      have hm₂ : w₂.impl.activeMessage = some accepted := by rw [hi₂]; rfl
      have hadv := (h₁.trans h₂).trans (World.adv_setActive hm₂
        { message with telegram := respondedTelegram message.telegram s stored } rfl)
      refine haccept s stored x _ ht hadv ?_
      simp only [hi₂, World.setActive]
      rfl
    · refine hstop e w' _ (h₁.halt h) ?_
      rcases hevs with ⟨rfl, hs⟩ | ⟨rfl, hs⟩
      · exact .refused hs
      · exact .ack ht hs
  · simp only [hrun, wp_liftRange_ok, wp_setActive, he, if_false]
    let refused : Message :=
      { message with
        telegram := { message.telegram with
          slave := slave, slaveNN := nn, slaveCRC := crc, slaveState := e } }
    have h₁ := World.adv_setActive hmessage refused rfl
    refine wp_writeRead _ _ _ (w.setActive refused) (fun x w₂ h₂ hi₂ => ?_) fun e' w' evs h hevs => ?_
    · have hm₂ : w₂.impl.activeMessage = some refused := by rw [hi₂]; rfl
      have hdone : ∀ state, state = (if retry ≠ 1 then EBUS_ERR_TRANSMIT else message.state) →
          Q none (w₂.setActive { message with
            telegram := rejectedTelegram message.telegram slave nn crc e, state }) := by
        rintro state rfl
        have hadv := (h₁.trans h₂).trans (World.adv_setActive hm₂
          { message with
            telegram := rejectedTelegram message.telegram slave nn crc e
            state := if retry ≠ 1 then EBUS_ERR_TRANSMIT else message.state } rfl)
        refine hreject slave nn crc e x _ hno hadv ?_
        simp only [World.setActive, hi₂]
      by_cases hretry : retry = 1
      · simp only [hretry, ne_eq, not_true_eq_false, if_false, wp_pure] at hdone ⊢
        exact hdone _ rfl
      · simp only [hretry, ne_eq, not_false_eq_true, if_true, wp_bind, wp_pure] at hdone ⊢
        refine wp_setActiveState _ _ _ _ (fun m hm => ?_) fun hm => absurd hm (by simp)
        obtain rfl := Option.some.inj hm
        exact hdone _ rfl
    · refine hstop e' w' _ (h₁.halt h) ?_
      rcases hevs with ⟨rfl, hs⟩ | ⟨rfl, -⟩
      · exact .refused hs
      · exact .nak hno

/-- A response was rejected. -/
inductive Rejected : List Event → Prop
  | intro {raw : List Byte} (hraw : Response raw)
      (h : ∀ (s : Slave) (stored : Sequence), ¬ s.Text (reduceBytes raw) stored) (x : Byte) :
      Rejected (raw.map .got ++ [.wrote seqNak, .got x])

/-- How far a stopped round of `receiveResponse` came. -/
inductive AttemptStopped (env : Env) : List Event → Prop
  | reading (r : List Byte) (h : Unanswered r) (hdry : Dry env.reads r) :
      AttemptStopped env (r.map .got)
  | acking {raw : List Byte} {evs : List Event} {reads : List RecvResult} (hraw : Response raw)
      (hreads : env.reads = raw.map .byte ++ reads)
      (h : ResponseStopped (reduceBytes raw) env.sends evs) :
      AttemptStopped env (raw.map .got ++ evs)

theorem wp_receiveAttempt (retry : Nat) (Q : Option State → World → Prop) (E : Stop → World → Prop)
    (w : World) {message : Message} (hmessage : w.impl.activeMessage = some message)
    (hoversize : ∀ nn w', nn.toNat > seqMaxBytes → Adv w w' [.got nn] →
      w'.impl = { w.impl with activeMessage := some { message with state := EBUS_ERR_TRANSMIT } } →
      Q (some .monitorBus) w'.reset)
    (haccept : ∀ raw s stored x w', Response raw → s.Text (reduceBytes raw) stored →
      Adv w w' (raw.map .got ++ [.wrote seqAck, .got x]) →
      w'.impl = { w.impl with
        activeMessage :=
          some { message with telegram := respondedTelegram message.telegram s stored } } →
      Q (some .freeBus) w')
    (hreject : ∀ evs slave nn crc e w', Rejected evs → Adv w w' evs →
      w'.impl = { w.impl with
        activeMessage := some { message with
          telegram := rejectedTelegram message.telegram slave nn crc e
          state := if retry ≠ 1 then EBUS_ERR_TRANSMIT else message.state } } → Q none w')
    (hstop : ∀ e w' evs, Halt w e w' evs → AttemptStopped w.env evs → E e w') :
    wp (receiveAttempt retry) Q E w := by
  rw [receiveAttempt, wp_bind]
  refine wp_read 1 0 _ _ w (fun nn reads hr => ?_) fun e w' h =>
    hstop e w' _ h.toHalt (.reading [] unanswered_nil h.dry)
  have h₁ := w.adv_got nn reads hr
  by_cases hnn : nn.toNat > seqMaxBytes
  · simp only [hnn, if_true, wp_bind]
    refine wp_setActiveState _ _ _ _ (fun m hm => ?_) fun hm => ?_
    · obtain rfl : message = m := Option.some.inj (hmessage.symm.trans hm)
      simp only [wp_reset, wp_pure]
      have hm₁ : (w.got nn).impl.activeMessage = some message := hmessage
      exact hoversize nn _ hnn (h₁.trans (World.adv_setActive hm₁ _ rfl)) rfl
    · exact absurd (hmessage.symm.trans hm) (by simp)
  simp only [hnn, if_false, receiveSlave, wp_bind, wp_get]
  refine wp_receivePart _ _ _ _ (w.got nn) [nn] (Nat.lt_succ_self _) (fun r w₂ hcount h₂ hi₂ => ?_)
    fun e w' r h hr => ?_
  swap
  · refine hstop e w' _ (h₁.halt h.toHalt) (.reading (nn :: r) (unanswered_data hr) ?_)
    have hdry := (h₁.starve h).dry
    simpa using hdry
  have hraw : Response (nn :: r) := .intro nn (Nat.le_of_not_lt hnn) hcount
  have h₁₂ : Adv w w₂ ((nn :: r).map .got) := h₁.trans h₂
  have hi : w₂.impl = w.impl := hi₂
  have hm₂ : w₂.impl.activeMessage = some message := by
    rw [hi]
    exact hmessage
  refine wp_acknowledgeResponse retry (nn :: r) _ _ w₂ hm₂ (fun s stored x w₃ ht h₃ hi₃ => ?_)
    (fun slave nn' crc e x w₃ hno h₃ hi₃ => ?_) fun e w' evs h hevs => ?_
  · exact haccept _ s stored x w₃ hraw ht (h₁₂.trans h₃) (by rw [hi₃, hi])
  · exact hreject _ slave nn' crc e w₃ (.intro hraw hno x) (h₁₂.trans h₃) (by rw [hi₃, hi])
  · have hsends : w₂.env.sends = w.env.sends := by
      rw [h₁₂.sends, wroteBytes_map_got]
      rfl
    have hreads := h₁₂.reads
    rw [gotBytes_map_got] at hreads
    rw [hsends] at hevs
    exact hstop e w' _ (h₁₂.halt h) (.acking hraw hreads hevs)

/-- `receiveAttempt` on a stream with a size byte out of bounds. -/
theorem wp_receiveAttempt_oversize (retry : Nat) (Q : Option State → World → Prop)
    (E : Stop → World → Prop) (w : World) {nn : Byte} {rest : List RecvResult} {message : Message}
    (hreads : w.env.reads = .byte nn :: rest) (hnn : nn.toNat > seqMaxBytes)
    (hmessage : w.impl.activeMessage = some message)
    (hok : ∀ w' : World, w'.events = w.events ++ [.got nn] → Q (some .monitorBus) w'.reset) :
    wp (receiveAttempt retry) Q E w := by
  rw [receiveAttempt, wp_bind, wp_read_byte 1 0 _ _ w nn rest hreads]
  simp only [hnn, if_true, wp_bind]
  refine wp_setActiveState _ _ _ _ (fun _ _ => ?_) fun hm => ?_
  · simp only [wp_reset, wp_pure]
    exact hok _ rfl
  · cases hmessage.symm.trans hm

/-- What stands before the last attempt of `receiveResponse`: nothing, or a rejected response. -/
def Retried (evs : List Event) : Prop := evs = [] ∨ Rejected evs

theorem wp_receiveResponse (Q : State → World → Prop) (E : Stop → World → Prop) (w : World)
    {message : Message} (hmessage : w.impl.activeMessage = some message)
    (hoversize : ∀ evs nn message' w₁ w', Retried evs → Adv w w₁ evs → nn.toNat > seqMaxBytes →
      Adv w₁ w' [.got nn] → message'.core = message.core →
      message'.state = EBUS_ERR_TRANSMIT →
      w'.impl = { w.impl with activeMessage := some message' } → Q .monitorBus w'.reset)
    (haccept : ∀ evs raw s stored x w₁ w', Retried evs → Adv w w₁ evs → Response raw →
      s.Text (reduceBytes raw) stored → Adv w₁ w' (raw.map .got ++ [.wrote seqAck, .got x]) →
      w'.impl = { w.impl with
        activeMessage :=
          some { message with telegram := respondedTelegram message.telegram s stored } } →
      Q .freeBus w')
    (hreject : ∀ evs evs' message' w₁ w', Rejected evs → Adv w w₁ evs → Rejected evs' →
      Adv w₁ w' evs' →
      message'.core = message.core → message'.state = EBUS_ERR_TRANSMIT →
      w'.impl = { w.impl with activeMessage := some message' } → Q .freeBus w')
    (hstop : ∀ e w₁ w' evs evs', Adv w w₁ evs → Halt w₁ e w' evs' → Retried evs →
      AttemptStopped w₁.env evs' → E e w') : wp receiveResponse Q E w := by
  simp only [receiveResponse, wp_bind, wp_getImpl, hmessage, wp_deref_some]
  refine wp_receiveAttempt 1 _ _ w hmessage (fun nn w' hnn h hi => ?_)
    (fun raw s stored x w' hraw ht h hi => ?_) (fun evs slave nn' crc e w₁ hrej h₁ hi₁ => ?_)
    fun e w' evs h hevs => hstop e w w' [] evs (.refl w) h (.inl rfl) hevs
  · simp only [wp_pure]
    exact hoversize [] nn { message with state := EBUS_ERR_TRANSMIT } w w' (.inl rfl) (.refl w) hnn h
      rfl rfl hi
  · simp only [wp_pure]
    exact haccept [] raw s stored x w w' (.inl rfl) (.refl w) hraw ht h hi
  simp only [wp_bind]
  have hm₁ : w₁.impl.activeMessage = some { message with
      telegram := rejectedTelegram message.telegram slave nn' crc e } := by
    rw [hi₁]
    rfl
  refine wp_receiveAttempt 0 _ _ w₁ hm₁ (fun nn w' hnn h hi => ?_)
    (fun raw s stored x w' hraw ht h hi => ?_) (fun evs' slave₂ nn₂ crc₂ e₂ w₂ hrej' h₂ hi₂ => ?_)
    fun e w' evs' h hevs => hstop e w₁ w' evs evs' h₁ h (.inr hrej) hevs
  · simp only [wp_pure]
    refine hoversize evs nn { message with
      telegram := rejectedTelegram message.telegram slave nn' crc e
      state := EBUS_ERR_TRANSMIT } w₁ w' (.inr hrej) h₁ hnn h rfl rfl ?_
    rw [hi, hi₁]
  · simp only [wp_pure]
    refine haccept evs raw s stored x w₁ w' (.inr hrej) h₁ hraw ht h ?_
    rw [hi, hi₁]
    rfl
  · simp only [wp_pure]
    refine hreject evs evs' { message with
      telegram := rejectedTelegram message.telegram slave₂ nn₂ crc₂ e₂
      state := EBUS_ERR_TRANSMIT } w₁ w₂ hrej h₁ hrej' h₂ rfl rfl ?_
    rw [hi₂, hi₁]
    rfl

theorem wp_freeBus (Q : State → World → Prop) (E : Stop → World → Prop) (w : World)
    (hok : ∀ x w', Adv w w' [.wrote seqSyn, .got x] → w'.impl = w.impl → Q .monitorBus w'.reset)
    (hstop : ∀ e w' evs, Halt w e w' evs → (evs = [] ∨ evs = [.wrote seqSyn]) →
      w'.impl.activeMessage = w.impl.activeMessage → E e w') : wp freeBus Q E w := by
  rw [freeBus, wp_bind]
  have hwp : wp (writeRead seqSyn 0 0) (fun _ w' => wp (reset >>= fun _ => pure State.monitorBus) Q E w')
      (fun e w' => ∃ evs, Halt w e w' evs ∧ (evs = [] ∨ evs = [.wrote seqSyn])) w := by
    refine wp_writeRead _ _ _ w (fun x w' h hi => ?_) fun e w' evs h hevs =>
      ⟨evs, h, hevs.imp And.left And.left⟩
    simp only [wp_bind, wp_reset, wp_pure]
    exact hok x w' h hi
  refine wp_mono (wp_and hwp (wp_writeRead_active seqSyn w)) (fun _ w' h => h.1) fun e w' h => ?_
  obtain ⟨⟨evs, hhalt, hevs⟩, hactive⟩ := h
  exact hstop e w' evs hhalt hevs hactive

/-! ### `handleDeviceError` -/

/-- The active message with the result of a device error. -/
def failedMessage (message : Message) : Message := { message with state := EBUS_ERR_DEVICE }

theorem wp_handleDeviceError (error : Bool) (Q : State → World → Prop) (E : Stop → World → Prop)
    (w : World) :
    wp (handleDeviceError error) Q E w ↔
      Q (if error then .openDevice else .monitorBus)
        { w with
          impl := { resetImpl w.impl with
            deviceOpen := if error then false else w.impl.deviceOpen }
          events := w.events ++ resetEvents (w.impl.activeMessage.map failedMessage) } := by
  rcases ha : w.impl.activeMessage with _ | message <;> rcases error with _ | _
  all_goals
    simp only [handleDeviceError, wp_bind, wp_getImpl, ha, wp_setActive, wp_reset, if_true,
      Bool.false_eq_true, if_false, deviceClose, wp_modifyImpl, wp_pure, World.reset, Option.map_none,
      Option.map_some]
  · rfl
  · rfl
  · rfl

end EBusFsm

import EBusFsm.Machine.Blocks

/-!
# What holds where `run` enters a handler

`kept_of_run`: in every run, the members have the values that the handler of the next round counts on
(`Kept`). The steps keep two more facts. Outside `sendResponse` and `idleSystem` no passive message is
there (`Held`), and every message a caller waits for was accepted by `createMaster`, because `transmit`
tests this and no handler writes the fields of the master part again. `found_iff` adds whether the telegrams
that `Kept` speaks of are still there.
-/

namespace EBusFsm

open Prog

/-! ### The property -/

/-- The bus is this participant's, for a message whose master part was accepted. -/
structure Acting (impl : EbusImpl) : Prop where
  active : ∃ message, impl.activeMessage = some message ∧ message.telegram.masterState = SEQ_OK
  unlocked : impl.lockCounter = 0
  empty : impl.sequence.seq = []

/-- What a handler finds when it is entered. -/
def Kept (impl : EbusImpl) : State → Prop
  | .lockBus | .sendMessage | .receiveResponse | .freeBus => Acting impl
  | .receiveMessage => ∃ qq zz, impl.sequence.seq = [qq, zz] ∧ Addressed impl zz
  | .processMessage => ∀ tel₀ : Telegram, ∃ tel seq,
      tel₀.createMaster impl.sequence = .ok (tel, seq) ∧ tel.masterState = SEQ_OK
  | .sendResponse => ∃ message, impl.passiveMessage = some message ∧ message.telegram.type = .MS ∧
      message.telegram.masterState = SEQ_OK ∧ message.telegram.slaveState = SEQ_OK
  | .monitorBus => impl.passiveMessage = none ∧ seqSyn ∉ impl.sequence.seq ∧
      ∀ zz, impl.sequence.seq[1]? = some zz → ¬ Addressed impl zz
  | .openDevice => impl.passiveMessage = none ∧ impl.sequence.seq = []
  | .idleSystem => True

/-! ### Rounds -/

/-- `Kept`, and no passive message where none is sent. -/
def Held (impl : EbusImpl) (state : State) : Prop :=
  Kept impl state ∧ (state = .sendResponse ∨ state = .idleSystem ∨ impl.passiveMessage = none)

/-- Every message was accepted by `createMaster`. -/
def System.Accepts (s : System) : Prop :=
  ∀ message ∈ s.messages, message.telegram.masterState = SEQ_OK

theorem Message.masterState_of_core {message message' : Message} (h : message'.core = message.core) :
    message'.telegram.masterState = message.telegram.masterState :=
  congrArg (fun message => message.telegram.masterState) h

section Round

variable {impl impl' : EbusImpl} {env : Env} {state : State} {result : Except Stop State}
  {evs : List Event}

theorem held_openDevice (hseq : impl.sequence.seq = []) (hpassive : impl.passiveMessage = none) :
    Held impl .openDevice := ⟨⟨hpassive, hseq⟩, .inr (.inr hpassive)⟩

theorem held_monitorBus (hseq : impl.sequence.seq = []) (hpassive : impl.passiveMessage = none) :
    Held impl .monitorBus := by
  refine ⟨⟨hpassive, ?_, fun zz hzz => ?_⟩, .inr (.inr hpassive)⟩
  · rw [hseq]
    exact List.not_mem_nil
  · rw [hseq] at hzz
    exact nomatch hzz

theorem held_failed (impl : EbusImpl) (e : Stop) : Held (failedImpl impl e) (failedState e) := by
  unfold failedState
  split_ifs
  · exact held_openDevice rfl rfl
  · exact held_monitorBus rfl rfl

/-- `monitorBus` collects a byte that does not address this participant. -/
theorem Held.collect {b : Byte} (h : Held impl .monitorBus) (hb : b ≠ seqSyn)
    (hno : ∀ qq, impl.sequence.seq = [qq] → ¬ Addressed impl b) :
    Held { impl with sequence := impl.sequence.pushBack b } .monitorBus := by
  obtain ⟨⟨hpassive, hsyn, hforeign⟩, -⟩ := h
  refine ⟨⟨hpassive, ?_, fun zz hzz => ?_⟩, .inr (.inr hpassive)⟩
  · rw [Sequence.pushBack_seq, List.mem_append, List.mem_singleton]
    exact not_or.2 ⟨hsyn, hb.symm⟩
  · rw [Sequence.pushBack_seq] at hzz
    rcases hl : impl.sequence.seq with _ | ⟨qq, _ | ⟨zz', rest⟩⟩
    · rw [hl] at hzz
      exact nomatch hzz
    · rw [hl] at hzz
      obtain rfl : b = zz := by simpa using hzz
      exact hno qq hl
    · rw [hl] at hzz
      exact hforeign zz (by rw [hl]; exact hzz)

/-- The active message after a piece that keeps its master part. -/
theorem Acting.replace {message message' : Message} (h : Acting impl)
    (hactive : impl.activeMessage = some message)
    (hstate : message'.telegram.masterState = message.telegram.masterState) :
    Acting { impl with activeMessage := some message' } := by
  obtain ⟨⟨message₀, h₀, hok⟩, hunlocked, hempty⟩ := h
  obtain rfl := Option.some_inj.1 (hactive.symm.trans h₀)
  exact ⟨⟨message', rfl, hstate.trans hok⟩, hunlocked, hempty⟩

/-- A response is prepared for `sendResponse` only, and `idleSystem` drops it. -/
theorem Held.passive_none (h : Held impl state) (hresponse : state ≠ .sendResponse)
    (hidle : state ≠ .idleSystem) : impl.passiveMessage = none :=
  (h.2.resolve_left hresponse).resolve_left hidle

/-- A handler leaves the members as the next one expects them. -/
theorem Handled.held_after (h : Handled impl env state result impl' evs) (hheld : Held impl state)
    (haccepts : ∀ message ∈ impl.held, message.telegram.masterState = SEQ_OK) :
    (Control.after result).Holds (Held impl') := by
  have hkept := hheld.1
  cases h with
  | idle hresult =>
    rcases hresult with ⟨-, rfl⟩ | ⟨-, rfl⟩ <;> exact held_openDevice rfl rfl
  | opened => exact held_monitorBus rfl rfl
  | collected hb hno => exact hheld.collect hb hno
  | @addressed qq zz _ _ _ _ haddr => exact ⟨⟨qq, zz, rfl, haddr⟩, .inr (.inr hkept.1)⟩
  | @synced active queue _ seq _ _ hqueue _ hseq =>
    show Held _ (if _ then _ else _)
    split_ifs with hlock
    · obtain ⟨message, rfl⟩ := Option.isSome_iff_exists.1 hlock.1
      refine ⟨⟨⟨message, rfl, ?_⟩, hlock.2, hseq⟩, .inr (.inr hkept.1)⟩
      have hmem : message ∈ (some message).toList ++ queue := by simp
      exact haccepts message (held_of_dequeued hqueue hmem)
    · exact held_monitorBus hseq hkept.1
  | oversizeAlone | misread | hung => trivial
  | oversize | responded | responseOversize | freed => exact held_monitorBus rfl rfl
  | @received qq zz r m stored seq _ _ _ _ ht _ _ hred =>
    have hnone := hheld.passive_none nofun nofun
    refine ⟨fun tel₀ => ?_, .inr (.inr hnone)⟩
    obtain ⟨seq', hrun, -⟩ := tel₀.createMaster_text ht
    refine ⟨tel₀.withMaster m stored m.crc SEQ_OK, seq', ?_, rfl⟩
    rw [Telegram.createMaster_reduce, hred]
    exact hrun
  | refused | drop =>
    have hnone := hheld.passive_none nofun nofun
    exact held_monitorBus rfl hnone
  | answer _ htype => exact ⟨⟨_, rfl, htype, rfl, rfl⟩, .inl rfl⟩
  | won =>
    have hnone := hheld.passive_none nofun nofun
    exact ⟨hkept, .inr (.inr hnone)⟩
  | lost =>
    have hnone := hheld.passive_none nofun nofun
    exact held_monitorBus hkept.empty hnone
  | broadcast =>
    have hnone := hheld.passive_none nofun nofun
    exact ⟨hkept, .inr (.inr hnone)⟩
  | @acked message _ _ hactive =>
    have hnone := hheld.passive_none nofun nofun
    have hacting : Acting { impl with
        activeMessage := some { message with telegram := message.telegram.setSlaveACK seqAck } } :=
      hkept.replace hactive rfl
    refine ⟨?_, .inr (.inr hnone)⟩
    split_ifs <;> exact hacting
  | unacked hactive | accepted hactive =>
    have hnone := hheld.passive_none nofun nofun
    exact ⟨hkept.replace hactive rfl, .inr (.inr hnone)⟩
  | rejected hactive _ hcore =>
    have hnone := hheld.passive_none nofun nofun
    exact ⟨hkept.replace hactive (Message.masterState_of_core hcore), .inr (.inr hnone)⟩
  | unopened => exact held_failed impl .error
  | device => exact held_failed _ _

/-- The members that other threads set are not those a handler counts on. -/
theorem Held.setting (haddress : impl'.address = impl.address)
    (hslave : impl'.slaveAddress = impl.slaveAddress) (hlock : impl'.lockCounter = impl.lockCounter)
    (hsequence : impl'.sequence = impl.sequence) (hactive : impl'.activeMessage = impl.activeMessage)
    (hpassive : impl'.passiveMessage = impl.passiveMessage) (h : Held impl state) : Held impl' state := by
  unfold Held at h ⊢
  rw [hpassive]
  refine ⟨?_, h.2⟩
  have hkept := h.1
  have hacting : Acting impl → Acting impl' := fun ⟨hmessage, hunlocked, hempty⟩ =>
    ⟨by rw [hactive]; exact hmessage, by rw [hlock]; exact hunlocked, by rw [hsequence]; exact hempty⟩
  cases state with
  | lockBus | sendMessage | receiveResponse | freeBus => exact hacting hkept
  | idleSystem => trivial
  | _ =>
    simp only [Kept, Addressed, haddress, hslave, hsequence, hpassive] at hkept ⊢
    exact hkept

end Round

/-! ### Runs -/

/-- What every reachable state satisfies. -/
structure Consistent (address : Byte) (s : System) : Prop where
  sound : Sound address s
  accepts : s.Accepts
  held : s.control.Holds (Held s.impl)

theorem consistent_init (address : Byte) : Consistent address (System.init address) where
  sound := sound_init address
  accepts := by simp [System.Accepts, System.messages, System.init, initImpl, EbusImpl.held]
  held := held_openDevice rfl rfl

theorem System.Accepts.step {s s' : System} {a : Action} (h : s.Accepts) (hstep : Stepped s a s') :
    s'.Accepts := by
  intro message hm
  rcases hstep.created_or_from hm with ⟨message', hm', hcore⟩ | ⟨m, stored, htel⟩
  · exact (Message.masterState_of_core hcore).trans (h message' hm')
  · rw [htel]
    rfl

theorem held_step {s s' : System} {a : Action} (haccepts : s.Accepts)
    (h : s.control.Holds (Held s.impl)) (hstep : Stepped s a s') : s'.control.Holds (Held s'.impl) := by
  cases hstep with
  | setting | enqueued => exact h.mono fun _ => Held.setting rfl rfl rfl rfl rfl rfl
  | failed | called | awoken => exact h
  | stopped => trivial
  | @thread state env _ _ _ hstate hh =>
    rw [hstate] at h
    exact hh.held_after h fun message hm => haccepts message (mem_messages_of_held hm)
  | @check state hstate =>
    rw [hstate] at h
    show (Control.loop (if s.impl.close then .idleSystem else state)).Holds (Held s.impl)
    split_ifs
    · exact ⟨trivial, .inr (.inl rfl)⟩
    · exact h
  | wake hwait =>
    rw [hwait] at h
    exact Held.setting rfl rfl rfl rfl rfl rfl h

theorem Consistent.step {address : Byte} {s s' : System} {a : Action} (h : Consistent address s)
    (hstep : s.step a = some s') : Consistent address s' where
  sound := h.sound.step hstep
  accepts := h.accepts.step (stepped h.sound.control hstep)
  held := held_step h.accepts h.held (stepped h.sound.control hstep)

theorem consistent_of_run {address : Byte} {guard : System → Action → Prop} {as : List Action}
    {s : System} (hrun : Run System.step guard (System.init address) as s) : Consistent address s :=
  hrun.invariant (fun _ _ _ h _ hstep => h.step hstep) (consistent_init address)

theorem Consistent.kept {address : Byte} {s : System} (h : Consistent address s) {state : State}
    (hstate : s.control = .loop state) : Kept s.impl state := by
  have hheld := h.held
  rw [hstate] at hheld
  exact hheld.1

/-- **A handler finds what it counts on**: in every run, whatever bytes and exceptions the device gives and
whenever `close` is called, each round of `run` begins with the members that `Kept` names. -/
theorem kept_of_run {address : Byte} {guard : System → Action → Prop} {as : List Action} {s : System}
    (hrun : Run System.step guard (System.init address) as s) {state : State}
    (hstate : s.control = .loop state) : Kept s.impl state :=
  (consistent_of_run hrun).kept hstate

end EBusFsm

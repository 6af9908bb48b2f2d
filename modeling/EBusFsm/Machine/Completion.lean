import EBusFsm.Machine.Safety
import EBusFsm.Machine.Wire

/-!
# A call that returns zero

`transmit` returns the state of its message, which starts at zero; so a message that is completed before
its exchange is reported as sent. Two paths do this: `close` moves the machine to `idleSystem` while a
message waits, and `sendResponse`, when it is done with the answer to somebody else, resets the message
that waits as well. `transmit_zero` says that there is no other: in a run without these two
(`Uninterrupted`), a call that returns zero had its exchange on the bus, and no other message was
completed between this exchange and its own notification.

The invariant `Complete` follows the exchange through the states: what the log ends with when
`sendMessage`, `receiveResponse` and `freeBus` are entered.
-/

namespace EBusFsm

/-- The exchange of a telegram, from the arbitration won to the last acknowledge byte. -/
inductive Exchanged (tel : Telegram) : List Event → Prop
  | broadcast {qq : Byte} {rest : List Byte} {evs : List Event} (hqq : tel.master.seq = qq :: rest)
      (htype : tel.type = .BC) (hevs : Echoed (tel.master.seq.drop 1 ++ [tel.masterCRC]) evs) :
      Exchanged tel ([.wrote qq, .got qq] ++ evs)
  | toMaster {qq : Byte} {rest : List Byte} {evs : List Event} (hqq : tel.master.seq = qq :: rest)
      (htype : tel.type = .MM) (hevs : MessageSent tel evs seqAck) :
      Exchanged tel ([.wrote qq, .got qq] ++ evs)
  | toSlave {qq : Byte} {rest : List Byte} {evs evs' : List Event} {raw : List Byte} {s : Slave}
      (hqq : tel.master.seq = qq :: rest) (htype : tel.type = .MS)
      (hevs : MessageSent tel evs seqAck) (hretried : Retried evs') (hraw : Response raw)
      (ht : s.Text (reduceBytes raw) tel.slave) (hcrc : tel.slaveCRC = s.crc)
      (hstate : tel.slaveState = SEQ_OK) (x : Byte) :
      Exchanged tel ([.wrote qq, .got qq] ++ evs ++
        (evs' ++ (raw.map .got ++ [.wrote seqAck, .got x])))

/-- The exchange of the message stands in the log, and the message was the next to be notified. -/
def Served (log : List Event) (message : Message) : Prop :=
  ∃ before ex close after, log = before ++ ex ++ close ++ .notified message :: after ∧
    Exchanged message.telegram ex ∧ notifiedMessages close = []

/-- The call that returned zero had its exchange, and its response is that of the message. -/
def ReturnSound (address : Byte) (log : List Event) (ret : Return) : Prop :=
  ret.result = 0 → ∃ message : Message, message.id = ret.id ∧ message.Carries address ret.request ∧
    ret.response = message.telegram.slave.seq ∧ Served log message

/-! ### The invariant -/

/-- A message that counts as sent when it is completed now. -/
def EbusImpl.Pending (impl : EbusImpl) : Prop :=
  ∃ message, impl.activeMessage = some message ∧ message.state = 0

/-- The log ends with the exchange of the active message, unless the message failed. -/
def Finished (impl : EbusImpl) (log : List Event) : Prop :=
  ∀ message, impl.activeMessage = some message → message.state = 0 →
    ∃ pre ex, log = pre ++ ex ∧ Exchanged message.telegram ex

/-- What the log ends with when a state is entered. -/
def Progress (impl : EbusImpl) (log : List Event) : State → Prop
  | .openDevice => impl.activeMessage = none
  | .sendMessage => ∃ message qq rest pre, impl.activeMessage = some message ∧
      message.telegram.master.seq = qq :: rest ∧ log = pre ++ [.wrote qq, .got qq]
  | .receiveResponse => ∃ message qq rest pre evs, impl.activeMessage = some message ∧
      message.telegram.master.seq = qq :: rest ∧ message.telegram.type = .MS ∧
      MessageSent message.telegram evs seqAck ∧ log = pre ++ ([.wrote qq, .got qq] ++ evs)
  | .freeBus => Finished impl log
  | .idleSystem => Finished impl log
  | _ => True

def Control.Progress (impl : EbusImpl) (log : List Event) : Control → Prop
  | .loop state => EBusFsm.Progress impl log state
  | .check state => EBusFsm.Progress impl log state
  | .waiting => impl.activeMessage = none
  | _ => True

structure Complete (address : Byte) (s : System) : Prop where
  completed : ∀ message ∈ s.completed, message.state = 0 → Served s.log message
  returned : ∀ ret ∈ s.returned, ReturnSound address s.log ret
  control : s.control.Progress s.impl s.log

/-! ### The condition -/

/-- While a message waits that has not failed, `close` takes effect only behind its exchange, and no
answer of this participant is served. -/
def Uninterrupted (s : System) (a : Action) : Prop :=
  (∀ state, a = .check → s.control = .check state → s.impl.close = true → s.impl.Pending →
    state = .freeBus) ∧
  ∀ env passive, a = .thread env → s.control = .loop .sendResponse → s.impl.Pending →
    s.impl.passiveMessage = some passive → ¬ Answered passive.telegram env

/-! ### The log grows -/

theorem Served.append {log : List Event} {message : Message} (h : Served log message)
    (evs : List Event) : Served (log ++ evs) message := by
  obtain ⟨before, ex, close, after, rfl, hex, hclose⟩ := h
  exact ⟨before, ex, close, after ++ evs, by simp, hex, hclose⟩

theorem ReturnSound.append {address : Byte} {log : List Event} {ret : Return}
    (h : ReturnSound address log ret) (evs : List Event) : ReturnSound address (log ++ evs) ret := by
  intro hzero
  obtain ⟨message, hid, hcarries, hresponse, hserved⟩ := h hzero
  exact ⟨message, hid, hcarries, hresponse, hserved.append evs⟩

/-- A message that is completed behind its exchange was served. -/
theorem Finished.served {impl : EbusImpl} {log close : List Event} {message : Message}
    (h : Finished impl log) (hactive : impl.activeMessage = some message) (hstate : message.state = 0)
    (hclose : notifiedMessages close = []) : Served (log ++ (close ++ finish message)) message := by
  obtain ⟨pre, ex, rfl, hex⟩ := h message hactive hstate
  refine ⟨pre, ex, close ++ [.published message.telegram.master.seq message.telegram.slave.seq], [],
    ?_, hex, ?_⟩
  · simp [finish]
  · rw [notifiedMessages_append, hclose]
    rfl

/-! ### One step -/

theorem MessageSent.congr {tel tel' : Telegram} {evs : List Event} {ack : Byte}
    (h : MessageSent tel evs ack) (hmaster : tel'.master = tel.master)
    (hcrc : tel'.masterCRC = tel.masterCRC) : MessageSent tel' evs ack := by
  cases h with
  | once he hack => exact .once (by rwa [hmaster, hcrc]) hack
  | again he he' => exact .again (by rwa [hmaster, hcrc]) (by rwa [hmaster, hcrc])

section Round

variable {impl impl' : EbusImpl} {env : Env} {state : State} {result : Except Stop State}
  {evs log : List Event}

/-- A round that nothing interrupts completes a message that has not failed only behind its
exchange. -/
theorem Handled.served (h : Handled impl env state result impl' evs) (hprogress : Progress impl log state)
    (hanswer : ∀ passive, state = .sendResponse → impl.Pending →
      impl.passiveMessage = some passive → ¬ Answered passive.telegram env)
    {message : Message} (hm : message ∈ notifiedMessages evs) (hzero : message.state = 0) :
    Served (log ++ evs) message := by
  obtain ⟨⟨close, rfl, hclose⟩, message', hactive, -, hdone⟩ := h.completed hm
  obtain ⟨rfl, hcompletes⟩ := hdone.resolve_left (not_not.2 hzero)
  cases hcompletes with
  | idle => exact Finished.served hprogress hactive hzero hclose
  | opened =>
    have hnone : impl.activeMessage = none := hprogress
    exact absurd (hactive.symm.trans hnone) (Option.some_ne_none _)
  | answered hpassive hanswered =>
    exact absurd hanswered (hanswer _ rfl ⟨message, hactive, hzero⟩ hpassive)
  | freed => exact Finished.served hprogress hactive hzero hclose

/-- The message that `freeBus` is entered with has had its exchange. -/
theorem finished_of_exchanged (message : Message) {ex : List Event}
    (hactive : impl.activeMessage = some message) (hex : Exchanged message.telegram ex)
    (pre : List Event) : Finished impl (pre ++ ex) := by
  intro message' hactive' _
  obtain rfl : message = message' := Option.some_inj.1 (hactive.symm.trans hactive')
  exact ⟨pre, ex, rfl, hex⟩

/-- A message that failed needs no exchange. -/
theorem finished_of_failed {message : Message} (hactive : impl.activeMessage = some message)
    (hfailed : message.state = EBUS_ERR_TRANSMIT) : Finished impl log := by
  intro message' hactive' hzero
  obtain rfl : message = message' := Option.some_inj.1 (hactive.symm.trans hactive')
  rw [hfailed] at hzero
  exact absurd hzero (by decide)

/-- `receiveResponse` is entered with a message to a slave. -/
theorem Progress.type_MS (hprogress : Progress impl log .receiveResponse) {message : Message}
    (hactive : impl.activeMessage = some message) : message.telegram.type = .MS := by
  obtain ⟨message', qq, rest, pre, evs, hactive', -, hms, -, -⟩ := hprogress
  obtain rfl := Option.some_inj.1 (hactive.symm.trans hactive')
  exact hms

/-- A response that `receiveResponse` accepts ends the exchange. -/
theorem MessageSent.exchanged {tel : Telegram} {qq : Byte} {rest : List Byte} {evs evs' : List Event}
    {raw : List Byte} {s : Slave} {stored : Sequence} (hsent : MessageSent tel evs seqAck)
    (hqq : tel.master.seq = qq :: rest) (hms : tel.type = .MS) (hretried : Retried evs') (hraw : Response raw)
    (ht : s.Text (reduceBytes raw) stored) (x : Byte) :
    Exchanged (respondedTelegram tel s stored)
      ([.wrote qq, .got qq] ++ evs ++ (evs' ++ (raw.map .got ++ [.wrote seqAck, .got x]))) := by
  have hqq' : (respondedTelegram tel s stored).master.seq = qq :: rest := hqq
  have hms' : (respondedTelegram tel s stored).type = .MS := hms
  have ht' : s.Text (reduceBytes raw) (respondedTelegram tel s stored).slave := ht
  have hcrc : (respondedTelegram tel s stored).slaveCRC = s.crc := rfl
  exact .toSlave hqq' hms' (hsent.congr rfl rfl) hretried hraw ht' hcrc rfl x

/-- The next state is entered with the log it asks for. -/
theorem Handled.progress (h : Handled impl env state result impl' evs)
    (hprogress : Progress impl log state)
    (htype : ∀ message, impl.activeMessage = some message → message.telegram.type ≠ .undefined) :
    (Control.after result).Progress impl' (log ++ evs) := by
  cases h with
  | idle hresult =>
    rcases hresult with ⟨-, rfl⟩ | ⟨-, rfl⟩
    · rfl
    · rfl
  | synced h hqueue hevs hseq =>
    unfold Control.after
    simp only [Control.Progress]
    split_ifs <;> trivial
  | won hactive hqq h => exact ⟨_, _, _, log, hactive, hqq, rfl⟩
  | broadcast hactive hbc hevs h =>
    obtain ⟨message, qq, rest, pre, hactive', hqq, rfl⟩ := hprogress
    obtain rfl := Option.some_inj.1 (hactive.symm.trans hactive')
    rw [List.append_assoc]
    exact finished_of_exchanged _ hactive (.broadcast hqq hbc hevs) pre
  | @acked message₀ _ _ hactive hbc hevs h =>
    obtain ⟨message, qq, rest, pre, hactive', hqq, rfl⟩ := hprogress
    obtain rfl := Option.some_inj.1 (hactive.symm.trans hactive')
    have hsent : MessageSent (message₀.telegram.setSlaveACK seqAck) evs seqAck := hevs.congr rfl rfl
    rw [List.append_assoc]
    by_cases hmm : message₀.telegram.type = .MM
    · rw [if_pos hmm]
      have hqq' : (message₀.telegram.setSlaveACK seqAck).master.seq = qq :: rest := hqq
      have hmm' : (message₀.telegram.setSlaveACK seqAck).type = .MM := hmm
      exact finished_of_exchanged { message₀ with telegram := message₀.telegram.setSlaveACK seqAck } rfl
        (.toMaster hqq' hmm' hsent) pre
    · rw [if_neg hmm]
      have hms : message₀.telegram.type = .MS := by
        have hne := htype _ hactive
        cases ht : message₀.telegram.type <;> simp_all
      exact ⟨_, qq, rest, pre, evs, rfl, hqq, hms, hsent, rfl⟩
  | unacked hactive h => exact finished_of_failed rfl rfl
  | @accepted message₀ evs' raw s stored x _ _ hactive hretried h hraw ht h' =>
    obtain ⟨message, qq, rest, pre, evs, hactive', hqq, hms, hsent, rfl⟩ := hprogress
    obtain rfl := Option.some_inj.1 (hactive.symm.trans hactive')
    rw [List.append_assoc]
    exact finished_of_exchanged
      { message₀ with telegram := respondedTelegram message₀.telegram s stored } rfl
      (hsent.exchanged hqq hms hretried hraw ht x) pre
  | rejected hactive h hcore hfailed => exact finished_of_failed rfl hfailed
  | unopened => rfl
  | device h he => rcases he with rfl | rfl <;> trivial
  | _ => trivial

end Round

/-! ### Runs -/

theorem complete_init (address : Byte) : Complete address (System.init address) where
  completed := by simp [System.init]
  returned := by simp [System.init]
  control := rfl

theorem Progress.setting {impl impl' : EbusImpl} {log : List Event} {state : State}
    (hactive : impl'.activeMessage = impl.activeMessage) (h : Progress impl log state) :
    Progress impl' log state := by
  cases state <;> simp only [Progress, Finished, hactive] at h ⊢ <;> exact h

theorem Control.Progress.setting {impl impl' : EbusImpl} {log : List Event} {control : Control}
    (hactive : impl'.activeMessage = impl.activeMessage) (h : control.Progress impl log) :
    control.Progress impl' log := by
  cases control with
  | loop state => exact EBusFsm.Progress.setting hactive h
  | check state => exact EBusFsm.Progress.setting hactive h
  | waiting => exact hactive.trans h
  | _ => trivial

theorem Sound.type_ne_undefined {address : Byte} {s : System} (h : Sound address s)
    {message : Message} (hactive : s.impl.activeMessage = some message) :
    message.telegram.type ≠ .undefined := by
  have hm : message ∈ s.impl.held := by simp [EbusImpl.held, hactive]
  obtain ⟨request, m, -, htype, -⟩ := h.carries message (mem_messages_of_held hm)
  rw [htype]
  exact m.type_ne_undefined

/-- The log stays as the states ask for it, if `close` leaves alone what still waits for its
exchange. -/
theorem progress_step {address : Byte} {s s' : System} {a : Action} (hsound : Sound address s)
    (h : s.control.Progress s.impl s.log)
    (hclosing : ∀ state, a = .check → s.control = .check state → s.impl.close = true →
      s.impl.Pending → state = .freeBus)
    (hstep : s.step a = some s') : s'.control.Progress s'.impl s'.log := by
  cases stepped hsound.control hstep with
  | setting => exact h.setting rfl
  | enqueued => exact h.setting rfl
  | failed | called | awoken => exact h
  | stopped => trivial
  | thread hstate hh =>
    rw [hstate] at h
    exact hh.progress h fun message => hsound.type_ne_undefined
  | @check state hstate =>
    rw [hstate] at h
    simp only [Control.Progress]
    split_ifs with hclose
    · -- close has been called: what waits here has had its exchange
      intro message hactive hzero
      obtain rfl := hclosing state rfl hstate hclose ⟨message, hactive, hzero⟩
      exact h message hactive hzero
    · exact h
  | wake hwait =>
    rw [hwait] at h
    exact h

theorem Complete.step {address : Byte} {s s' : System} {a : Action} (hsound : Sound address s)
    (h : Complete address s) (hguard : Uninterrupted s a) (hstep : s.step a = some s') :
    Complete address s' := by
  obtain ⟨hcompleted, hreturned, hcontrol⟩ := h
  have hnext := progress_step hsound hcontrol hguard.1 hstep
  cases stepped hsound.control hstep with
  | failed hresult =>
    refine ⟨hcompleted, fun ret hret => ?_, hnext⟩
    rcases List.mem_cons.1 hret with rfl | hret
    · exact fun hzero => absurd hzero hresult
    · exact hreturned ret hret
  | @awoken call message hcall hmessage hid =>
    refine ⟨hcompleted, fun ret hret => ?_, hnext⟩
    rcases List.mem_cons.1 hret with rfl | hret
    · intro hzero
      have hcarries := hsound.calls call hcall message (List.mem_append_right _ hmessage) hid
      exact ⟨message, hid, hcarries, rfl, hcompleted message hmessage hzero⟩
    · exact hreturned ret hret
  | thread hstate hh =>
    rw [hstate] at hcontrol
    refine ⟨fun message hm hzero => ?_, fun ret hret => (hreturned ret hret).append _, hnext⟩
    rcases List.mem_append.1 hm with hm | hm
    · refine hh.served hcontrol (fun passive hresponse => ?_) hm hzero
      rw [hresponse] at hstate
      exact hguard.2 _ passive rfl hstate
    · exact (hcompleted message hm hzero).append _
  | _ => exact ⟨hcompleted, hreturned, hnext⟩

/-- **A call of `transmit` that returns zero had its exchange on the bus**, in a run in which neither
`close` nor an answer of this participant completes its message. -/
theorem transmit_zero {address : Byte} {as : List Action} {s : System}
    (hrun : Run System.step Uninterrupted (System.init address) as s) {ret : Return}
    (hret : ret ∈ s.returned) : ReturnSound address s.log ret := by
  have hinv := hrun.invariant (I := fun s => Sound address s ∧ Complete address s)
    (fun _ _ _ h hguard hstep => ⟨h.1.step hstep, h.2.step h.1 hguard hstep⟩)
    ⟨sound_init address, complete_init address⟩
  exact hinv.2.returned ret hret

/-- `close` is not noticed, and `sendResponse` does not run. -/
def calm (s : System) : Action → Bool
  | .check => !s.impl.close
  | .thread _ => s.control != .loop .sendResponse
  | _ => true

theorem uninterrupted_of_calm (s : System) (a : Action) (h : calm s a = true) : Uninterrupted s a := by
  refine ⟨?_, ?_⟩
  · rintro state rfl - hclose -
    simp [calm, hclose] at h
  · rintro env passive rfl hcontrol
    simp [calm, hcontrol] at h

/-- The first message of a participant with the address `ff`, a broadcast. -/
def broadcastMessage : Message :=
  ⟨1, bareTelegram (.ofCheck 0xff 0xfe 0xb5 0x05 [0x27] (.refl true)), 0⟩

/-- The device is opened, and the message is enqueued. -/
def requestBroadcast : List Action :=
  [.setLockCounterMax 1] ++ handlers [[0xaa]] ++
    [.transmit [0xfe, 0xb5, 0x05, 0x01, 0x27], .enqueue broadcastMessage]

def awakeBroadcast : Action := .awake ⟨1, [0xfe, 0xb5, 0x05, 0x01, 0x27]⟩ broadcastMessage

def broadcastReturn : Return := ⟨1, [0xfe, 0xb5, 0x05, 0x01, 0x27], 0, []⟩

/-- The broadcast is sent when the bus is free, and its call returns zero. -/
theorem transmit_zero_sample :
    ∃ s, execute System.step calm (System.init 0xff) (requestBroadcast ++
        handlers [[0xaa], [0xff], [0xfe, 0xb5, 0x05, 0x01, 0x27, 0x31], [0xaa]] ++ [awakeBroadcast]) =
          some s ∧
      ReturnSound 0xff s.log broadcastReturn := by
  have hrun : (execute System.step calm (System.init 0xff) (requestBroadcast ++
      handlers [[0xaa], [0xff], [0xfe, 0xb5, 0x05, 0x01, 0x27, 0x31], [0xaa]] ++ [awakeBroadcast])).map
        System.returned = some [broadcastReturn] := by decide +kernel
  obtain ⟨s, hs, hreturned⟩ := Option.map_eq_some_iff.1 hrun
  have hret : broadcastReturn ∈ s.returned := by
    rw [hreturned]
    exact List.mem_singleton_self _
  exact ⟨s, hs, transmit_zero (run_of_execute uninterrupted_of_calm hs) hret⟩

theorem Exchanged.wroteBytes_ne_nil {tel : Telegram} {evs : List Event} (h : Exchanged tel evs) :
    wroteBytes evs ≠ [] := by
  cases h <;> exact List.cons_ne_nil _ _

/-- The broadcast is taken from the queue, and `close` is called before the arbitration: its call
returns zero, and not one byte was written. -/
theorem transmit_zero_unsent_sample :
    ¬ ∀ (address : Byte) (as : List Action) (s : System) (ret : Return), ValidAddress address →
      Run System.step (fun _ _ => True) (System.init address) as s → ret ∈ s.returned →
      ReturnSound address s.log ret := by
  intro h
  have hrun : (execute System.step (fun _ _ => true) (System.init 0xff) (requestBroadcast ++
      [.thread { reads := [.byte 0xaa] }, .closeCall, .check, .thread {}, awakeBroadcast])).map
        (fun s => (s.returned, wroteBytes s.log)) = some ([broadcastReturn], []) := by decide +kernel
  obtain ⟨s, hs, hreturned⟩ := Option.map_eq_some_iff.1 hrun
  rw [Prod.mk.injEq] at hreturned
  have hret : broadcastReturn ∈ s.returned := by
    rw [hreturned.1]
    exact List.mem_singleton_self _
  obtain ⟨message, -, -, -, before, ex, close, after, hlog, hex, -⟩ :=
    h 0xff _ s _ (.inl (by decide)) (run_of_execute (fun _ _ _ => trivial) hs) hret rfl
  have hwrote := hreturned.2
  rw [hlog] at hwrote
  simp only [wroteBytes, List.filterMap_append, List.append_eq_nil_iff] at hwrote
  exact hex.wroteBytes_ne_nil hwrote.1.1.2

end EBusFsm

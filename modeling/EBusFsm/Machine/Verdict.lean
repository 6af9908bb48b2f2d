import EBusFsm.Machine.Completion
import EBusFsm.Machine.Delivery
import EBusFsm.Machine.Release

/-!
# What the result of a call says

A call of `transmit` ends with one of six results. `explained` says for every call of every run what its result
stands for, whatever the device, `close` and the other calls did meanwhile: `EBUS_ERR_SEQUENCE` that the request is
no telegram, `EBUS_ERR_OFFLINE` that the machine was not online when the call looked, and for a message that was
enqueued the `Verdict` of the round that completed it. `EBUS_ERR_MASTER` is never returned: a request under an
address that is no master address is no telegram.

`EBUS_ERR_TRANSMIT` has two meanings. The message was sent, and `Failed` lists how its exchange went wrong; or a
message with too many bytes came while it waited, to this participant or to all. Zero has three, because `close`
and an answer of this participant complete a message before its exchange. Callers whose wait ends spuriously are
left out, as in `System.step`.

The invariant `Course` adds to `Progress` what a message that failed leaves in the log.
-/

namespace EBusFsm

open Prog

/-! ### Verdicts -/

/-- The exchange of a telegram that failed, from the arbitration won to the byte that decided it. -/
inductive Failed (tel : Telegram) : List Event → Prop
  /-- The last acknowledge byte is not positive. -/
  | unacknowledged {qq last : Byte} {rest : List Byte} {evs : List Event} (hqq : tel.master.seq = qq :: rest)
      (htype : tel.type ≠ .BC) (hevs : MessageSent tel evs last) (hlast : last ≠ seqAck) :
      Failed tel ([.wrote qq, .got qq] ++ evs)
  /-- The response has more bytes than it may have. -/
  | oversize {qq nn : Byte} {rest : List Byte} {evs evs' : List Event} (hqq : tel.master.seq = qq :: rest)
      (htype : tel.type = .MS) (hevs : MessageSent tel evs seqAck) (hevs' : Retried evs')
      (hnn : nn.toNat > seqMaxBytes) : Failed tel ([.wrote qq, .got qq] ++ evs ++ (evs' ++ [.got nn]))
  /-- Two responses were rejected. -/
  | rejected {qq : Byte} {rest : List Byte} {evs evs₁ evs₂ : List Event} (hqq : tel.master.seq = qq :: rest)
      (htype : tel.type = .MS) (hevs : MessageSent tel evs seqAck) (h₁ : Rejected evs₁) (h₂ : Rejected evs₂) :
      Failed tel ([.wrote qq, .got qq] ++ evs ++ (evs₁ ++ evs₂))

/-- Why a round of the handler of this state completed the message with its state: `log` is what was logged before
the round, and `evs` what the round logged before the message was completed. -/
inductive Verdict (log : List Event) (impl : EbusImpl) (env : Env) (message : Message) :
    State → List Event → Prop
  | exchanged {pre ex : List Event} {x : Byte} (hzero : message.state = 0) (hlog : log = pre ++ ex)
      (hex : Exchanged message.telegram ex) : Verdict log impl env message .freeBus [.wrote seqSyn, .got x]
  /-- `close` was called. -/
  | closed (hzero : message.state = 0) (hclose : impl.close = true) : Verdict log impl env message .idleSystem []
  /-- This participant answered somebody else. -/
  | answered {passive : Message} {evs : List Event} (hzero : message.state = 0)
      (hpassive : impl.passiveMessage = some passive) (h : Answered passive.telegram env) :
      Verdict log impl env message .sendResponse evs
  /-- The exchange failed, and the bus was freed if `close` was not called. -/
  | failed {state : State} {pre ex evs close : List Event} (hfailed : message.state = EBUS_ERR_TRANSMIT)
      (hlog : log = pre ++ ex) (hex : Failed message.telegram (ex ++ evs))
      (hclose : close = [] ∨ ∃ x, close = [.wrote seqSyn, .got x]) :
      Verdict log impl env message state (evs ++ close)
  /-- A message to this participant, or to all, has more bytes than it may have. -/
  | foreign {pb sb nn : Byte} (hfailed : message.state = EBUS_ERR_TRANSMIT) (hnn : nn.toNat > seqMaxBytes) :
      Verdict log impl env message .receiveMessage [.got pb, .got sb, .got nn]
  | device {state : State} {evs : List Event} (hfailed : message.state = EBUS_ERR_DEVICE)
      (hthrows : Throws impl env state) : Verdict log impl env message state evs

/-- A round of the history completed the message. -/
def Adjudged (history : List (System × Action)) (message : Message) : Prop :=
  ∃ (s : System) (env : Env) (state : State) (evs : List Event), (s, .thread env) ∈ history ∧
    s.control = .loop state ∧ (s.runThread state env).log = s.log ++ (evs ++ finish message) ∧
    Verdict s.log s.impl env message state evs

/-- What the result of a call stands for. -/
inductive Explained (address : Byte) (history : List (System × Action)) (ret : Return) : Prop
  | sequence (hresult : ret.result = EBUS_ERR_SEQUENCE)
      (hno : ∀ (m : Master) (stored : Sequence), ¬ m.Text (address :: ret.request) stored)
  | offline {m : Master} {stored : Sequence} {s : System} (hresult : ret.result = EBUS_ERR_OFFLINE)
      (ht : m.Text (address :: ret.request) stored) (hs : (s, .transmit ret.request) ∈ history)
      (honline : s.impl.online = false)
  | completed {message : Message} (hresult : ret.result = message.state)
      (hresponse : ret.response = message.telegram.slave.seq) (hcarries : message.Carries address ret.request)
      (h : Adjudged history message)

/-! ### The invariant -/

/-- The log ends with the exchange of a message that failed. -/
def Doomed (log : List Event) (message : Message) : Prop :=
  message.state = EBUS_ERR_TRANSMIT ∧ ∃ pre ex, log = pre ++ ex ∧ Failed message.telegram ex

/-- What is known when a state is entered. -/
structure Course (impl : EbusImpl) (log : List Event) (state : State) : Prop where
  progress : state ≠ .idleSystem → Progress impl log state
  closing : state = .idleSystem → impl.activeMessage ≠ none → impl.close = true
  failed : state = .freeBus ∨ state = .idleSystem → ∀ message, impl.activeMessage = some message →
    message.state = 0 ∨ Doomed log message

/-- What a handler that goes on to `freeBus` did to the state of its message. -/
def Decides (message message' : Message) (evs : List Event) : State → Prop
  | .sendMessage => message'.state = message.state ∨ message.telegram.type ≠ .BC ∧
      ∃ last, last ≠ seqAck ∧ MessageSent message.telegram evs last
  | .receiveResponse => message'.state = message.state ∨
      ∃ evs₁ evs₂, evs = evs₁ ++ evs₂ ∧ Rejected evs₁ ∧ Rejected evs₂
  | _ => True

section Round

variable {impl impl' : EbusImpl} {env : Env} {state : State} {result : Except Stop State} {evs log : List Event}

theorem Failed.congr {tel tel' : Telegram} (h : Failed tel evs) (hmaster : tel'.master = tel.master)
    (hcrc : tel'.masterCRC = tel.masterCRC) (htype : tel'.type = tel.type) : Failed tel' evs := by
  cases h with
  | unacknowledged hqq hne hevs hlast =>
    exact .unacknowledged (by rwa [hmaster]) (by rwa [htype]) (hevs.congr hmaster hcrc) hlast
  | oversize hqq hms hevs hevs' hnn =>
    exact .oversize (by rwa [hmaster]) (by rwa [htype]) (hevs.congr hmaster hcrc) hevs' hnn
  | rejected hqq hms hevs h₁ h₂ =>
    exact .rejected (by rwa [hmaster]) (by rwa [htype]) (hevs.congr hmaster hcrc) h₁ h₂

theorem Failed.of_core {message message' : Message} (h : Failed message.telegram evs)
    (hcore : message'.core = message.core) : Failed message'.telegram evs := by
  refine h.congr ?_ ?_ ?_
  · exact congrArg (fun message => message.telegram.master) hcore
  · exact congrArg (fun message => message.telegram.masterCRC) hcore
  · exact congrArg (fun message => message.telegram.type) hcore

/-- A round that goes on to `freeBus` decides as its handler does. -/
theorem decides (hready : Ready impl state) {message : Message} (hactive : impl.activeMessage = some message)
    {w : World} (hexec : exec (runState state) { impl, env } = (.ok .freeBus, w)) {message' : Message}
    (hactive' : w.impl.activeMessage = some message') : Decides message message' w.events state := by
  suffices hwp : wp (handler state) (fun next w => next = .freeBus → ∀ message', w.impl.activeMessage = some message' →
      Decides message message' w.events state) (fun _ _ => True) { impl, env } by
    have hrun : wp (runState state) (fun next w => next = .freeBus → ∀ message',
        w.impl.activeMessage = some message' → Decides message message' w.events state) (fun _ _ => True)
        { impl, env } := by
      unfold runState
      rw [wp_tryCatch]
      refine wp_mono hwp (fun _ _ h => h) fun e w _ => ?_
      cases e with
      | warning | error =>
        rw [wp_handleDeviceError]
        simp
      | _ => trivial
    exact wp_ok hrun hexec rfl message' hactive'
  cases state with
  | sendMessage =>
    refine wp_sendMessage _ _ _ hactive ?_ ?_ ?_ fun _ _ _ _ => trivial
    · rintro - evs w - - hi - message' hm
      rw [hi, show _ = _ from hactive] at hm
      obtain rfl := Option.some_inj.1 hm
      exact .inl rfl
    · rintro - evs w - - hi - message' hm
      rw [hi] at hm
      obtain rfl := Option.some_inj.1 hm
      exact .inl rfl
    · rintro htype evs last w hlast hevs h - - message' -
      exact .inr ⟨htype, last, hlast, by rw [h.events]; exact hevs⟩
  | receiveResponse =>
    refine wp_receiveResponse _ _ _ hactive ?_ ?_ ?_ fun _ _ _ _ _ _ _ _ _ => trivial
    · intros
      contradiction
    · rintro evs raw s stored x w₁ w - - - - - hi - message' hm
      rw [hi] at hm
      obtain rfl := Option.some_inj.1 hm
      exact .inl rfl
    · rintro evs₁ evs₂ _ w₁ w h₁ hw₁ h₂ hw₂ - - - - message' -
      exact .inr ⟨evs₁, evs₂, by rw [hw₂.events, hw₁.events]; rfl, h₁, h₂⟩
  | _ => exact (wp_def _ _ _ _).2 ⟨fun _ _ _ _ _ _ => trivial, fun _ _ _ => trivial⟩

theorem Doomed.append {message message' : Message} {pre ex : List Event} (hlog : log = pre ++ ex)
    (hex : Failed message.telegram (ex ++ evs)) (hcore : message'.core = message.core)
    (hfailed : message'.state = EBUS_ERR_TRANSMIT) : Doomed (log ++ evs) message' :=
  ⟨hfailed, pre, ex ++ evs, by rw [hlog, List.append_assoc], hex.of_core hcore⟩

theorem Unfailed.state_zero (h : Unfailed impl state) (hfree : state ≠ .freeBus) (hidle : state ≠ .idleSystem)
    {message : Message} (hactive : impl.activeMessage = some message) : message.state = 0 :=
  (h.resolve_left hfree).resolve_left hidle message hactive

/-- A round that completes a message gives it the state that the log and the device call for. -/
theorem Handled.verdict (h : Handled impl env state result impl' evs) (hcourse : Course impl log state)
    (hunfailed : Unfailed impl state) {message : Message} (hm : message ∈ notifiedMessages evs) :
    ∃ evs', evs = evs' ++ finish message ∧ Verdict log impl env message state evs' := by
  have hnone : notifiedMessages evs = [] → ∃ evs', evs = evs' ++ finish message ∧
      Verdict log impl env message state evs' := by
    intro hevs
    rw [hevs] at hm
    exact absurd hm List.not_mem_nil
  have hactive : ∀ {active : Option Message} {close : List Event}, notifiedMessages close = [] →
      evs = close ++ resetEvents active → active = some message := by
    rintro active close hclose rfl
    rwa [notifiedMessages_append, hclose, List.nil_append, notifiedMessages_resetEvents, Option.mem_toList] at hm
  have hfinish : ∀ {message' : Message} {close : List Event}, notifiedMessages close = [] →
      evs = close ++ finish message' → message' = message := by
    rintro message' close hclose rfl
    rw [notifiedMessages_append, hclose] at hm
    exact (List.mem_singleton.1 hm).symm
  cases h with
  | idle =>
    have ha : impl.activeMessage = some message := hactive notifiedMessages_nil rfl
    rw [ha]
    rcases hcourse.failed (.inr rfl) message ha with hzero | ⟨hfailed, pre, ex, hlog, hex⟩
    · exact ⟨[], rfl, .closed hzero (hcourse.closing rfl (by simp [ha]))⟩
    · exact ⟨[] ++ [], rfl, .failed hfailed hlog (by rwa [List.append_nil]) (.inl rfl)⟩
  | opened _ h =>
    have ha : impl.activeMessage = some message := hactive h.quiet.notifiedMessages rfl
    have hidle : impl.activeMessage = none := hcourse.progress nofun
    exact absurd (hidle.symm.trans ha) nofun
  | collected _ _ h => exact hnone h.quiet.notifiedMessages
  | addressed _ h => exact hnone h.quiet.notifiedMessages
  | synced h _ hevs => exact hnone hevs.notifiedMessages
  | oversizeAlone _ h => exact hnone h.quiet.notifiedMessages
  | misread _ _ h => exact hnone h.quiet.notifiedMessages
  | oversize hnn h =>
    obtain rfl := hfinish h.quiet.notifiedMessages rfl
    exact ⟨_, rfl, .foreign rfl hnn⟩
  | received _ _ _ _ h =>
    refine hnone ?_
    rw [notifiedMessages_append, notifiedMessages_receivedEvents, List.append_nil]
    exact h.quiet.notifiedMessages
  | refused _ _ _ h => exact hnone h.quiet.notifiedMessages
  | answer | drop => exact hnone (notifiedMessages_processEvents _ _)
  | responded hpassive hevs h =>
    rw [List.append_cons] at hactive ⊢
    have ha : impl.activeMessage = some message := hactive (by simp [h.quiet.notifiedMessages]) rfl
    have hzero := hunfailed.state_zero nofun nofun ha
    rw [ha]
    exact ⟨_, rfl, .answered hzero hpassive ⟨_, _, _, hevs, h.reads, h.sent⟩⟩
  | won _ _ h => exact hnone h.quiet.notifiedMessages
  | lost _ _ _ h => exact hnone h.quiet.notifiedMessages
  | broadcast _ _ _ h => exact hnone h.quiet.notifiedMessages
  | acked _ _ _ h => exact hnone h.quiet.notifiedMessages
  | unacked _ _ h => exact hnone h.quiet.notifiedMessages
  | @responseOversize _ _ _ nn _ _ ha hevs h hnn h' hcore hfailed =>
    rw [List.append_cons] at hfinish ⊢
    obtain rfl := hfinish (h.trans h').quiet.notifiedMessages rfl
    obtain ⟨message₀, qq, rest, pre, sent, ha', hqq, hms, hsent, hlog⟩ := hcourse.progress nofun
    obtain rfl := Option.some_inj.1 (ha.symm.trans ha')
    have hex := (Failed.oversize hqq hms hsent hevs hnn).of_core hcore
    exact ⟨_, by rw [List.append_nil], .failed hfailed hlog hex (.inl rfl)⟩
  | accepted _ _ h _ _ h' => exact hnone (h.trans h').quiet.notifiedMessages
  | rejected _ h => exact hnone h.quiet.notifiedMessages
  | @freed x _ h =>
    have ha : impl.activeMessage = some message := hactive h.quiet.notifiedMessages rfl
    rw [ha]
    rcases hcourse.failed (.inl rfl) message ha with hzero | ⟨hfailed, pre, ex, hlog, hex⟩
    · obtain ⟨pre, ex, hlog, hex⟩ := hcourse.progress nofun message ha hzero
      exact ⟨_, rfl, .exchanged hzero hlog hex⟩
    · exact ⟨[] ++ [.wrote seqSyn, .got x], rfl, .failed hfailed hlog (by rwa [List.append_nil]) (.inr ⟨x, rfl⟩)⟩
  | unopened _ _ hthrows =>
    have ha := hactive notifiedMessages_nil rfl
    obtain ⟨message', -, rfl⟩ := Option.map_eq_some_iff.1 ha
    rw [ha]
    exact ⟨[], rfl, .device rfl hthrows⟩
  | device h _ _ hthrows =>
    have ha := hactive h.quiet.notifiedMessages rfl
    obtain ⟨message', -, rfl⟩ := Option.map_eq_some_iff.1 ha
    rw [ha]
    exact ⟨_, rfl, .device rfl hthrows⟩
  | hung h => exact hnone h.quiet.notifiedMessages

theorem Control.Progress.holds {control : Control} (h : control.Progress impl log) :
    control.Holds fun state => state ≠ .idleSystem → EBusFsm.Progress impl log state := by
  cases control with
  | loop | check | waiting => exact fun _ => h
  | _ => trivial

/-- No handler goes on to `idleSystem`. -/
theorem Handled.ne_idleSystem (h : Handled impl env state result impl' evs) : result ≠ .ok .idleSystem := by
  cases h with
  | idle hresult => rcases hresult with ⟨-, rfl⟩ | ⟨-, rfl⟩ <;> nofun
  | synced | acked => split_ifs <;> nofun
  | device _ he => rcases he with rfl | rfl <;> nofun
  | _ => nofun

/-- The next state is entered as `Course` says. -/
theorem Handled.course (h : Handled impl env state result impl' evs) (hcourse : Course impl log state)
    (hunfailed : Unfailed impl state)
    (htype : ∀ message, impl.activeMessage = some message → message.telegram.type ≠ .undefined)
    (hdecides : result = .ok .freeBus → ∀ message message', impl.activeMessage = some message →
      impl'.activeMessage = some message' → Decides message message' evs state) :
    (Control.after result).Holds (Course impl' (log ++ evs)) := by
  have hprogress : (Control.after result).Holds fun next => next ≠ .idleSystem →
      EBusFsm.Progress impl' (log ++ evs) next := by
    by_cases hidle : state = .idleSystem
    · subst hidle
      cases h with
      | idle hresult => rcases hresult with ⟨-, rfl⟩ | ⟨-, rfl⟩ <;> exact fun _ => rfl
      | device _ _ _ _ hidle | hung _ hidle => exact absurd rfl hidle
    · exact Control.Progress.holds (h.progress (hcourse.progress hidle) htype)
  have hfailed : result = .ok .freeBus → ∀ message, impl'.activeMessage = some message →
      message.state = 0 ∨ Doomed (log ++ evs) message := by
    intro hresult
    have hd := hdecides hresult
    cases h with
    | idle hidle => rcases hidle with ⟨-, rfl⟩ | ⟨-, rfl⟩ <;> cases hresult
    | synced => split_ifs at hresult <;> cases hresult
    | broadcast => exact fun message hm => .inl (hunfailed.state_zero nofun nofun hm)
    | acked ha | accepted ha =>
      have hzero := hunfailed.state_zero nofun nofun ha
      rintro _ ⟨⟩
      exact .inl hzero
    | unacked ha hevs =>
      have hzero := hunfailed.state_zero nofun nofun ha
      rintro _ ⟨⟩
      rcases hd _ _ ha rfl with heq | ⟨htype, last, hlast, hsent⟩
      · exact .inl (heq.trans hzero)
      obtain ⟨message, qq, rest, pre, ha', hqq, hlog⟩ := hcourse.progress nofun
      obtain rfl := Option.some_inj.1 (ha.symm.trans ha')
      exact .inr (.append hlog (.unacknowledged hqq htype hsent hlast) rfl rfl)
    | rejected ha h hcore hfailed =>
      have hzero := hunfailed.state_zero nofun nofun ha
      intro message' hm
      obtain rfl := Option.some_inj.1 hm
      rcases hd _ _ ha rfl with heq | ⟨evs₁, evs₂, rfl, h₁, h₂⟩
      · exact .inl (heq.trans hzero)
      obtain ⟨message, qq, rest, pre, sent, ha', hqq, hms, hsent, hlog⟩ := hcourse.progress nofun
      obtain rfl := Option.some_inj.1 (ha.symm.trans ha')
      exact .inr (.append hlog (.rejected hqq hms hsent h₁ h₂) hcore hfailed)
    | device _ he => rcases he with rfl | rfl <;> cases hresult
    | _ => cases hresult
  have hidle := h.ne_idleSystem
  rcases result with e | next
  · cases e with
    | blocked => exact ⟨hprogress, nofun, nofun⟩
    | _ => trivial
  · refine ⟨hprogress, fun heq => absurd (congrArg _ heq) hidle, fun hnext => ?_⟩
    obtain rfl := hnext.resolve_right fun heq => hidle (congrArg _ heq)
    exact hfailed rfl

end Round

/-! ### Runs -/

section Runs

variable {address : Byte} {s s' : System} {a : Action} {history : List (System × Action)}

/-- Only a call on a machine that is offline, or with a request that is no telegram, fails at once. -/
theorem callTransmit_explained {message : List Byte} (hown : s.impl.address = address)
    (hstep : s.callTransmit message = some s') :
    s'.returned = s.returned ∨ ∃ ret, s'.returned = ret :: s.returned ∧
      Explained address (history ++ [(s, .transmit message)]) ret := by
  unfold System.callTransmit at hstep
  rw [createMasterFrom_eq, hown] at hstep
  rcases Telegram.createMaster_spec {} (address :: message) with
    ⟨m, stored, seq, ht, hrun, -⟩ | ⟨_, _, _, _, e, he, hno, hrun⟩
  · have hmaster : isMaster address = true := ht.qq_eq ▸ m.source
    simp only [hrun, Telegram.withMaster, ne_eq, not_true_eq_false, if_false, hmaster, Bool.not_true,
      Bool.false_eq_true] at hstep
    rcases honline : s.impl.online with _ | _
    · rw [honline] at hstep
      cases hstep
      exact .inr ⟨_, rfl, .offline rfl ht (List.mem_append_right _ List.mem_cons_self) honline⟩
    · rw [honline] at hstep
      cases hstep
      exact .inl rfl
  · have hstate : ¬ e = SEQ_OK := he
    simp only [hrun, ne_eq, hstate, not_false_eq_true, if_true] at hstep
    cases hstep
    exact .inr ⟨_, rfl, .sequence rfl hno⟩

theorem Adjudged.mono {history' : List (System × Action)} {message : Message} (h : Adjudged history message)
    (hsub : history ⊆ history') : Adjudged history' message := by
  obtain ⟨s, env, state, evs, hs, hrest⟩ := h
  exact ⟨s, env, state, evs, hsub hs, hrest⟩

theorem Explained.mono {history' : List (System × Action)} {ret : Return} (h : Explained address history ret)
    (hsub : history ⊆ history') : Explained address history' ret := by
  cases h with
  | sequence hresult hno => exact .sequence hresult hno
  | offline hresult ht hs honline => exact .offline hresult ht (hsub hs) honline
  | completed hresult hresponse hcarries h => exact .completed hresult hresponse hcarries (h.mono hsub)

/-- Every completed message was adjudged, and every call that returned is explained. -/
structure Judicial (address : Byte) (history : List (System × Action)) (s : System) : Prop where
  course : s.control.Holds (Course s.impl s.log)
  completed : ∀ message ∈ s.completed, Adjudged history message
  returned : ∀ ret ∈ s.returned, Explained address history ret

theorem Course.setting {impl impl' : EbusImpl} {log : List Event} {state : State}
    (hactive : impl'.activeMessage = impl.activeMessage) (hclose : impl.close = true → impl'.close = true)
    (h : Course impl log state) : Course impl' log state := by
  refine ⟨fun hne => (h.progress hne).setting hactive, fun hidle hnone => ?_, ?_⟩
  · rw [hactive] at hnone
    exact hclose (h.closing hidle hnone)
  · rw [hactive]
    exact h.failed

theorem Judicial.round {env : Env} {state : State} {result : Except Stop State} {impl' : EbusImpl} {evs : List Event}
    (hsound : Sound address s) (htrying : Trying s) (h : Judicial address history s) (hstate : s.control = .loop state)
    (hh : Handled s.impl env state result impl' evs) (hlog : (s.runThread state env).log = s.log ++ evs)
    (hdecides : result = .ok .freeBus → ∀ message message', s.impl.activeMessage = some message →
      impl'.activeMessage = some message' → Decides message message' evs state) :
    Judicial address (history ++ [(s, .thread env)]) { s with
      impl := impl'
      control := .after result
      completed := notifiedMessages evs ++ s.completed
      log := s.log ++ evs } := by
  have hsub : history ⊆ history ++ [(s, .thread env)] := List.subset_append_left _ _
  have hcourse := h.course
  have hunfailed := htrying.active
  rw [hstate] at hcourse hunfailed
  refine ⟨hh.course hcourse hunfailed (fun _ => hsound.type_ne_undefined) hdecides, fun message hm => ?_,
    fun ret hret => (h.returned ret hret).mono hsub⟩
  rcases List.mem_append.1 hm with hm | hm
  · obtain ⟨evs', rfl, hverdict⟩ := hh.verdict hcourse hunfailed hm
    exact ⟨s, env, state, evs', List.mem_append_right _ List.mem_cons_self, hstate, hlog, hverdict⟩
  · exact (h.completed message hm).mono hsub

theorem Judicial.thread {env : Env} (hsound : Sound address s) (htrying : Trying s) (h : Judicial address history s)
    (hstep : s.step (.thread env) = some s') : Judicial address (history ++ [(s, .thread env)]) s' := by
  have hready := hsound.control
  have hsub : history ⊆ history ++ [(s, .thread env)] := List.subset_append_left _ _
  unfold System.step at hstep
  rcases hstate : s.control with state | _ | _ | _ | _ | _
  case loop =>
    rw [hstate] at hready
    simp only [hstate, Option.some.injEq] at hstep
    subst hstep
    by_cases hrunning : s.impl.running = true
    swap
    · rw [System.runThread, if_pos (by simpa using hrunning)]
      exact ⟨trivial, fun message hm => (h.completed message hm).mono hsub,
        fun ret hret => (h.returned ret hret).mono hsub⟩
    have hround := runThread_eq hrunning state env
    rcases hexec : exec (runState state) { impl := s.impl, env } with ⟨e | next, w⟩
    all_goals
      rw [hexec] at hround
      have hlog := congrArg System.log hround
      rw [hround]
    · have hh := wp_error (handled hready) hexec
      exact h.round hsound htrying hstate hh hlog fun hnext => by cases hnext
    · have hh := wp_ok (handled hready) hexec
      refine h.round hsound htrying hstate hh hlog fun hnext message message' hm hm' => ?_
      cases hnext
      exact decides hready hm hexec hm'
  all_goals simp [hstate] at hstep

theorem Judicial.step (hsound : Sound address s) (htrying : Trying s) (h : Judicial address history s)
    (hstep : s.step a = some s') : Judicial address (history ++ [(s, a)]) s' := by
  have hsub : history ⊆ history ++ [(s, a)] := List.subset_append_left _ _
  have hcompleted := fun message hm => (h.completed message hm).mono hsub
  have hreturned := fun ret hret => (h.returned ret hret).mono hsub
  have hcourse := h.course
  have hthread := fun env (ha : a = .thread env) => ha ▸ h.thread hsound htrying (ha ▸ hstep)
  cases stepped hsound.control hstep with
  | setting _ _ _ _ _ _ _ _ _ hclose =>
    refine ⟨hcourse.mono fun _ => Course.setting rfl fun h => ?_, hcompleted, hreturned⟩
    rw [hclose, h, Bool.true_or]
  | failed =>
    refine ⟨hcourse, hcompleted, fun ret hret => ?_⟩
    rcases callTransmit_explained hsound.own hstep with heq | ⟨ret', heq, hexplained⟩
    · exact hreturned ret (heq ▸ hret)
    · rw [heq] at hret
      rcases List.mem_cons.1 hret with rfl | hret
      · exact hexplained
      · exact hreturned ret hret
  | called => exact ⟨hcourse, hcompleted, hreturned⟩
  | enqueued => exact ⟨hcourse.mono fun _ => Course.setting rfl id, hcompleted, hreturned⟩
  | @awoken call message hcall hmessage hid =>
    refine ⟨hcourse, hcompleted, fun ret hret => ?_⟩
    rcases List.mem_cons.1 hret with rfl | hret
    · have hcarries := hsound.calls call hcall message (List.mem_append_right _ hmessage) hid
      exact .completed rfl rfl hcarries (hcompleted message hmessage)
    · exact hreturned ret hret
  | stopped | thread => exact hthread _ rfl
  | @check state hstate =>
    rw [hstate] at hcourse
    refine ⟨?_, hcompleted, hreturned⟩
    show Course s.impl s.log (if s.impl.close then .idleSystem else state)
    split_ifs with hclose
    · refine ⟨fun hne => absurd rfl hne, fun _ _ => hclose, fun _ message hm => ?_⟩
      by_cases hdecided : state = .freeBus ∨ state = .idleSystem
      · exact hcourse.failed hdecided message hm
      · have hunfailed := htrying.active
        rw [hstate] at hunfailed
        rw [not_or] at hdecided
        exact .inl (Unfailed.state_zero hunfailed hdecided.1 hdecided.2 hm)
    · exact hcourse
  | wake hwait =>
    rw [hwait] at hcourse
    refine ⟨Course.setting ?_ ?_ hcourse, hcompleted, hreturned⟩
    · rfl
    · exact id

/-- **The result of a call says what happened**: in every run, each result that `transmit` returned is explained by
the history of the run. -/
theorem explained {guard : System → Action → Prop} {as : List Action}
    (hrun : Run System.step guard (System.init address) as s) {ret : Return} (hret : ret ∈ s.returned) :
    Explained address (visited System.step (System.init address) as) ret := by
  have hinv := hrun.history (I := fun history s => Sound address s ∧ Trying s ∧ Judicial address history s)
    (fun _ _ _ _ h _ hstep => ⟨h.1.step hstep, trying_step h.1 h.2.1 hstep, h.2.2.step h.1 h.2.1 hstep⟩)
    ⟨sound_init address, ⟨nofun, .of_none rfl⟩, ⟨fun _ => rfl, nofun, nofun⟩, nofun, nofun⟩
  exact hinv.2.2.returned ret hret

end Runs

/-- The request of `slaveMessage`, behind a wrong acknowledge byte. -/
def failedSlave : Message :=
  { slaveMessage with telegram := slaveMessage.telegram.setSlaveACK 0x55, state := EBUS_ERR_TRANSMIT }

/-- The request is acknowledged by a wrong byte, and its call returns a transmit error. -/
theorem explained_sample :
    ∃ s, execute System.step (fun _ _ => true) (System.init 0xff) (requestSlave ++
        handlers [[0xff], [0x08, 0xb5, 0x05, 0x01, 0x27, 0xa8, 0x55], [0xaa]] ++
        [.awake ⟨1, [0x08, 0xb5, 0x05, 0x01, 0x27]⟩ failedSlave]) = some s ∧
      Explained 0xff (visited System.step (System.init 0xff) (requestSlave ++
        handlers [[0xff], [0x08, 0xb5, 0x05, 0x01, 0x27, 0xa8, 0x55], [0xaa]] ++
        [.awake ⟨1, [0x08, 0xb5, 0x05, 0x01, 0x27]⟩ failedSlave]))
        ⟨1, [0x08, 0xb5, 0x05, 0x01, 0x27], EBUS_ERR_TRANSMIT, []⟩ := by
  have hrun : (execute System.step (fun _ _ => true) (System.init 0xff) (requestSlave ++
      handlers [[0xff], [0x08, 0xb5, 0x05, 0x01, 0x27, 0xa8, 0x55], [0xaa]] ++
      [.awake ⟨1, [0x08, 0xb5, 0x05, 0x01, 0x27]⟩ failedSlave])).map System.returned =
        some [⟨1, [0x08, 0xb5, 0x05, 0x01, 0x27], EBUS_ERR_TRANSMIT, []⟩] := by decide +kernel
  obtain ⟨s, hs, hreturned⟩ := Option.map_eq_some_iff.1 hrun
  have hall : Run System.step (fun _ _ => True) (System.init 0xff) _ s := run_of_execute (fun _ _ _ => trivial) hs
  refine ⟨s, hs, explained hall ?_⟩
  rw [hreturned]
  exact List.mem_singleton_self _

end EBusFsm

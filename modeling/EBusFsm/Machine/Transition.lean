import EBusFsm.Machine.Spec
import EBusFsm.Machine.System

/-!
# The steps of the thread

`Handled impl env state result impl' evs` lists every way in which one round of the loop in `run` can go
from the members `impl`: one constructor for each outcome of each handler, and three for a device that
stops one. `handled` shows that a round does nothing else, provided that the state is entered as the
handlers enter it (`Ready`). Every invariant of the machine is proved by cases on this relation.
-/

namespace EBusFsm

open Prog

/-- The members are such that the handler of the state can start. -/
def Ready (impl : EbusImpl) : State → Prop
  | .receiveMessage => ∃ qq zz, impl.sequence = ⟨[qq, zz], true⟩ ∧ Addressed impl zz
  | .processMessage => ∃ m stored, Master.Text m impl.sequence.reduce.seq stored
  | .sendResponse => ∃ message, impl.passiveMessage = some message
  | .lockBus => ∃ message qq rest, impl.activeMessage = some message ∧
      message.telegram.master.seq = qq :: rest
  | .sendMessage => ∃ message, impl.activeMessage = some message
  | .receiveResponse => ∃ message, impl.activeMessage = some message
  | _ => True

/-- The members after `handleDeviceError`. -/
def failedImpl (impl : EbusImpl) (e : Stop) : EbusImpl :=
  { resetImpl impl with deviceOpen := if e = .error then false else impl.deviceOpen }

/-- The state after `handleDeviceError`. -/
def failedState (e : Stop) : State := if e = .error then .openDevice else .monitorBus

/-- The handler throws a device exception. -/
def Throws (impl : EbusImpl) (env : Env) (state : State) : Prop :=
  ∃ e w, exec (handler state) { impl, env } = (.error e, w) ∧ (e = .warning ∨ e = .error)

/-- What one round of the loop in `run` does. -/
inductive Handled (impl : EbusImpl) (env : Env) :
    State → Except Stop State → EbusImpl → List Event → Prop
  | idle {result : Except Stop State}
      (hresult : impl.notify = true ∧ result = .ok .openDevice ∨
        impl.notify = false ∧ result = .error .blocked) :
      Handled impl env .idleSystem result (idleImpl impl) (resetEvents impl.activeMessage)
  | opened {l : List Byte} {w : World} (hl : Flushed l) (h : Adv { impl, env } w (l.map .got)) :
      Handled impl env .openDevice (.ok .monitorBus)
        { resetImpl impl with deviceOpen := true, online := true }
        (l.map .got ++ resetEvents impl.activeMessage)
  | collected {b : Byte} {w : World} (hb : b ≠ seqSyn)
      (hno : ∀ qq, impl.sequence.seq = [qq] → ¬ Addressed impl b) (h : Adv { impl, env } w [.got b]) :
      Handled impl env .monitorBus (.ok .monitorBus)
        { impl with sequence := impl.sequence.pushBack b } [.got b]
  | addressed {qq zz : Byte} {w : World} (hzz : zz ≠ seqSyn) (h : Adv { impl, env } w [.got zz])
      (hseq : impl.sequence.seq = [qq]) (haddr : Addressed impl zz) :
      Handled impl env .monitorBus (.ok .receiveMessage)
        { impl with sequence := ⟨[qq, zz], true⟩ } [.got zz]
  | synced {active : Option Message} {queue : List Message} {evs : List Event}
      {seq : Sequence} {w : World} (h : Adv { impl, env } w [.got seqSyn])
      (hqueue : Dequeued impl active queue) (hevs : Overheard impl.sequence evs)
      (hseq : seq.seq = []) :
      Handled impl env .monitorBus
        (.ok (if active.isSome ∧ syncedLock impl = 0 then .lockBus else .monitorBus))
        { impl with
          lockCounter := syncedLock impl, sequence := seq, activeMessage := active,
          messageQueue := queue }
        (.got seqSyn :: evs)
  | oversizeAlone {pb sb nn : Byte} {w : World} (hnn : nn.toNat > seqMaxBytes)
      (h : Adv { impl, env } w [.got pb, .got sb, .got nn]) (hactive : impl.activeMessage = none) :
      Handled impl env .receiveMessage (.error .nullDeref) w.impl [.got pb, .got sb, .got nn]
  | misread {qq zz : Byte} {r : List Byte} {w : World} (hseq : impl.sequence = ⟨[qq, zz], true⟩)
      (hzz : ebusCode.Reserved zz) (h : Adv { impl, env } w (r.map .got)) :
      Handled impl env .receiveMessage (.error .outOfRange) w.impl (r.map .got)
  | oversize {pb sb nn : Byte} {message : Message} {w : World} (hnn : nn.toNat > seqMaxBytes)
      (h : Adv { impl, env } w [.got pb, .got sb, .got nn])
      (hactive : impl.activeMessage = some message) :
      Handled impl env .receiveMessage (.ok .monitorBus) (resetImpl impl)
        ([.got pb, .got sb, .got nn] ++ finish { message with state := EBUS_ERR_TRANSMIT })
  | received {qq zz : Byte} {r : List Byte} {m : Master} {stored seq : Sequence} {evs : List Event}
      {w : World} (hseq : impl.sequence = ⟨[qq, zz], true⟩) (hr : Framed (qq :: zz :: r))
      (ht : m.Text (reduceBytes (qq :: zz :: r)) stored) (hevs : Acknowledged m evs)
      (h : Adv { impl, env } w (r.map .got ++ evs))
      (hred : seq.reduce.seq = reduceBytes (qq :: zz :: r)) :
      Handled impl env .receiveMessage (.ok .processMessage) { impl with sequence := seq }
        (r.map .got ++ evs ++ receivedEvents m stored)
  | refused {qq zz : Byte} {r : List Byte} {evs : List Event} {w : World}
      (hseq : impl.sequence = ⟨[qq, zz], true⟩) (hr : Framed (qq :: zz :: r))
      (hevs : evs = [] ∨ ∃ x, evs = [.wrote seqNak, .got x])
      (h : Adv { impl, env } w (r.map .got ++ evs)) :
      Handled impl env .receiveMessage (.ok .monitorBus) { impl with sequence := {} }
        (r.map .got ++ evs)
  | answer {m : Master} {s : Slave} {stored storedSlave seq : Sequence}
      (ht : m.Text impl.sequence.reduce.seq stored) (htype : m.type = .MS)
      (hprocessing : impl.processing = true) (hs : s.Text env.response storedSlave) :
      Handled impl env .processMessage (.ok .sendResponse)
        { impl with
          sequence := seq
          passiveMessage := some ⟨0, answeredTelegram m stored s storedSlave, 0⟩ }
        (processEvents impl stored)
  | drop {m : Master} {stored : Sequence} (ht : m.Text impl.sequence.reduce.seq stored) :
      Handled impl env .processMessage (.ok .monitorBus) { impl with sequence := {} }
        (processEvents impl stored)
  | responded {message : Message} {evs : List Event} {last : Byte} {w : World}
      (hpassive : impl.passiveMessage = some message)
      (hevs : PartSent (partBytes message.telegram.slave message.telegram.slaveCRC) evs last)
      (h : Adv { impl, env } w evs) :
      Handled impl env .sendResponse (.ok .monitorBus) (resetImpl impl)
        (evs ++ .published message.telegram.master.seq message.telegram.slave.seq ::
          resetEvents impl.activeMessage)
  | won {message : Message} {qq : Byte} {rest : List Byte} {w : World}
      (hactive : impl.activeMessage = some message) (hqq : message.telegram.master.seq = qq :: rest)
      (h : Adv { impl, env } w [.wrote qq, .got qq]) :
      Handled impl env .lockBus (.ok .sendMessage) impl [.wrote qq, .got qq]
  | lost {message : Message} {qq b : Byte} {rest : List Byte} {w : World}
      (hactive : impl.activeMessage = some message) (hqq : message.telegram.master.seq = qq :: rest)
      (hb : b ≠ qq) (h : Adv { impl, env } w [.wrote qq, .got b]) :
      Handled impl env .lockBus (.ok .monitorBus) { impl with lockCounter := lostLock impl qq b }
        [.wrote qq, .got b]
  | broadcast {message : Message} {evs : List Event} {w : World}
      (hactive : impl.activeMessage = some message) (htype : message.telegram.type = .BC)
      (hevs : Echoed (message.telegram.master.seq.drop 1 ++ [message.telegram.masterCRC]) evs)
      (h : Adv { impl, env } w evs) : Handled impl env .sendMessage (.ok .freeBus) impl evs
  | acked {message : Message} {evs : List Event} {w : World}
      (hactive : impl.activeMessage = some message) (htype : message.telegram.type ≠ .BC)
      (hevs : MessageSent message.telegram evs seqAck) (h : Adv { impl, env } w evs) :
      Handled impl env .sendMessage
        (.ok (if message.telegram.type = .MM then .freeBus else .receiveResponse))
        { impl with
          activeMessage := some { message with telegram := message.telegram.setSlaveACK seqAck } } evs
  | unacked {message : Message} {evs : List Event} {last : Byte} {w : World}
      (hactive : impl.activeMessage = some message) (hevs : MessageSent message.telegram evs last)
      (h : Adv { impl, env } w evs) :
      Handled impl env .sendMessage (.ok .freeBus)
        { impl with
          activeMessage := some { message with
            telegram := message.telegram.setSlaveACK last, state := EBUS_ERR_TRANSMIT } } evs
  | responseOversize {message message' : Message} {evs : List Event} {nn : Byte} {w w' : World}
      (hactive : impl.activeMessage = some message) (hevs : Retried evs)
      (h : Adv { impl, env } w evs) (hnn : nn.toNat > seqMaxBytes) (h' : Adv w w' [.got nn])
      (hcore : message'.core = message.core) (hstate : message'.state = EBUS_ERR_TRANSMIT) :
      Handled impl env .receiveResponse (.ok .monitorBus) (resetImpl impl)
        (evs ++ .got nn :: finish message')
  | accepted {message : Message} {evs : List Event} {raw : List Byte} {s : Slave} {stored : Sequence}
      {x : Byte} {w w' : World} (hactive : impl.activeMessage = some message) (hevs : Retried evs)
      (h : Adv { impl, env } w evs) (hraw : Response raw) (ht : s.Text (reduceBytes raw) stored)
      (h' : Adv w w' (raw.map .got ++ [.wrote seqAck, .got x])) :
      Handled impl env .receiveResponse (.ok .freeBus)
        { impl with
          activeMessage :=
            some { message with telegram := respondedTelegram message.telegram s stored } }
        (evs ++ (raw.map .got ++ [.wrote seqAck, .got x]))
  | rejected {message message' : Message} {evs : List Event} {w : World}
      (hactive : impl.activeMessage = some message) (h : Adv { impl, env } w evs)
      (hcore : message'.core = message.core) (hstate : message'.state = EBUS_ERR_TRANSMIT) :
      Handled impl env .receiveResponse (.ok .freeBus)
        { impl with activeMessage := some message' } evs
  | freed {x : Byte} {w : World} (h : Adv { impl, env } w [.wrote seqSyn, .got x]) :
      Handled impl env .freeBus (.ok .monitorBus) (resetImpl impl)
        (.wrote seqSyn :: .got x :: resetEvents impl.activeMessage)
  | unopened (hclosed : impl.deviceOpen = false) (hopens : env.opens = false)
      (hthrows : Throws impl env .openDevice) :
      Handled impl env .openDevice (.ok .openDevice) (failedImpl impl .error)
        (resetEvents (impl.activeMessage.map failedMessage))
  | device {state : State} {e : Stop} {evs : List Event} {w : World}
      (h : Halt { impl, env } e w evs) (he : e = .warning ∨ e = .error)
      (hfree : state = .freeBus → (evs = [] ∨ evs = [.wrote seqSyn]) ∧
        w.impl.activeMessage = impl.activeMessage)
      (hthrows : Throws impl env state) (hidle : state ≠ .idleSystem) :
      Handled impl env state (.ok (failedState e)) (failedImpl w.impl e)
        (evs ++ resetEvents (w.impl.activeMessage.map failedMessage))
  | hung {state : State} {evs : List Event} {w : World} (h : Halt { impl, env } .starved w evs)
      (hidle : state ≠ .idleSystem) :
      Handled impl env state (.error .starved) w.impl evs

/-! ### A round does nothing else -/

section Round

variable {impl : EbusImpl} {env : Env}

/-- The round ended as `Handled` says. -/
def Rounded (impl : EbusImpl) (env : Env) (state : State) (next : State) (w : World) : Prop :=
  Handled impl env state (.ok next) w.impl w.events

/-- The round ends as `Handled` says once `run` has caught the stop of the handler. -/
def Caught (impl : EbusImpl) (env : Env) (state : State) (e : Stop) (w : World) : Prop :=
  exec (handler state) { impl, env } = (.error e, w) → wp (match e with
    | .warning => handleDeviceError false
    | .error => handleDeviceError true
    | stop => throw stop) (Rounded impl env state)
    (fun e w => Handled impl env state (.error e) w.impl w.events) w

theorem caught_halt {state : State} {e : Stop} {w : World} {evs : List Event}
    (h : Halt { impl, env } e w evs)
    (hfree : state = .freeBus → (evs = [] ∨ evs = [.wrote seqSyn]) ∧
      w.impl.activeMessage = impl.activeMessage) (hidle : state ≠ .idleSystem) :
    Caught impl env state e w := by
  have hevs : w.events = evs := h.events
  unfold Caught
  intro hthrown
  rcases h.device with rfl | rfl | rfl
  · rw [wp_handleDeviceError]
    unfold Rounded
    simp only [hevs]
    exact .device h (.inl rfl) hfree ⟨_, w, hthrown, .inl rfl⟩ hidle
  · rw [wp_handleDeviceError]
    unfold Rounded
    simp only [hevs]
    exact .device h (.inr rfl) hfree ⟨_, w, hthrown, .inr rfl⟩ hidle
  · rw [wp_throw, hevs]
    exact .hung h hidle

theorem wp_runState (state : State)
    (h : wp (handler state) (Rounded impl env state) (Caught impl env state) { impl, env }) :
    wp (runState state) (Rounded impl env state)
      (fun e w => Handled impl env state (.error e) w.impl w.events) { impl, env } := by
  unfold runState
  rw [wp_tryCatch, wp_def]
  rw [wp_def] at h
  exact ⟨h.1, fun e w hthrown => h.2 e w hthrown hthrown⟩

theorem Handled.rounded {state next : State} {impl' : EbusImpl} {evs : List Event} {w : World}
    (h : Handled impl env state (.ok next) impl' evs) (himpl : w.impl = impl')
    (hevs : w.events = evs) : Rounded impl env state next w := by
  unfold Rounded
  rw [himpl, hevs]
  exact h

theorem handled_idleSystem :
    wp idleSystem (Rounded impl env .idleSystem) (Caught impl env .idleSystem) { impl, env } := by
  refine wp_idleSystem _ _ _ (fun hnotify => ?_) fun hnotify => ?_
  · exact (Handled.idle (.inl ⟨hnotify, rfl⟩)).rounded rfl rfl
  · exact fun _ => Handled.idle (.inr ⟨hnotify, rfl⟩)

theorem handled_openDevice :
    wp openDevice (Rounded impl env .openDevice) (Caught impl env .openDevice) { impl, env } := by
  refine wp_openDevice _ _ _ (fun l w hl h hi => ?_) (fun hclosed hopens => ?_) fun e w l h =>
    caught_halt h.toHalt nofun nofun
  · refine (Handled.opened hl h).rounded ?_ ?_
    · rw [hi]
      rfl
    · have hevs : w.events = l.map .got := h.events
      simp only [World.reset, hevs, hi]
  · unfold Caught
    intro hthrown
    rw [wp_handleDeviceError]
    exact (Handled.unopened hclosed hopens ⟨_, _, hthrown, .inr rfl⟩).rounded rfl rfl

theorem handled_monitorBus :
    wp monitorBus (Rounded impl env .monitorBus) (Caught impl env .monitorBus) { impl, env } := by
  refine wp_monitorBus _ _ _ (fun b w hb hno h hi => ?_) (fun qq zz w hzz h hseq haddr hi => ?_)
    (fun w h hi => ?_) fun e w h => caught_halt h.toHalt nofun nofun
  · exact (Handled.collected hb hno h).rounded hi h.events
  · exact (Handled.addressed hzz h hseq haddr).rounded hi h.events
  · refine wp_handleSyn _ _ _ fun active queue evs seq hqueue _ hevs hseq => ?_
    have hwevs : w.events = [.got seqSyn] := h.events
    rw [hi] at hqueue hevs ⊢
    refine (Handled.synced h hqueue hevs hseq).rounded rfl ?_
    simp only [hwevs, List.singleton_append]

theorem handled_receiveMessage (hready : Ready impl .receiveMessage) :
    wp receiveMessage (Rounded impl env .receiveMessage) (Caught impl env .receiveMessage)
      { impl, env } := by
  obtain ⟨qq, zz, hseq, -⟩ := hready
  refine wp_receiveMessage _ _ _ hseq ?_ ?_ ?_ ?_ ?_ ?_
  · intro r w hr hno h
    have hreserved : ebusCode.Reserved zz := by
      by_contra hzz
      obtain ⟨b, hb⟩ := hr.byteAt_one fun q z rest heq => by
        obtain ⟨-, rfl, -⟩ : qq = q ∧ zz = z ∧ r = rest := by simpa using heq
        exact hzz
      exact hno b hb
    have hevs : w.events = r.map .got := h.events
    unfold Caught
    intro _
    rw [wp_throw, hevs]
    exact .misread hseq hreserved h
  · intro pb sb nn w hnn h hactive
    have hevs : w.events = [.got pb, .got sb, .got nn] := h.events
    unfold Caught
    intro _
    rw [wp_throw, hevs]
    exact .oversizeAlone hnn h hactive
  · intro pb sb nn message w hnn h hactive hi
    refine (Handled.oversize hnn h hactive).rounded ?_ ?_
    · simp only [World.reset, hi]
      rfl
    · simp only [World.reset, h.events, hi]
      rfl
  · intro r m stored seq evs w hr ht hevs h hred hi
    exact (Handled.received hseq hr ht hevs h hred).rounded hi (by simp only [h.events, List.nil_append])
  · intro r evs w hr _ hevs h hi
    exact (Handled.refused hseq hr hevs h).rounded hi h.events
  · exact fun e w evs h _ => caught_halt h (by simp) (by simp)

theorem handled_processMessage (hready : Ready impl .processMessage) :
    wp processMessage (Rounded impl env .processMessage) (Caught impl env .processMessage)
      { impl, env } := by
  obtain ⟨m, stored, ht⟩ := hready
  refine wp_processMessage _ _ _ ht (fun s storedSlave seq htype hprocessing _ hs => ?_) ?_
  · exact (Handled.answer ht htype hprocessing hs).rounded rfl rfl
  · exact (Handled.drop ht).rounded rfl rfl

theorem handled_sendResponse (hready : Ready impl .sendResponse) :
    wp sendResponse (Rounded impl env .sendResponse) (Caught impl env .sendResponse)
      { impl, env } := by
  obtain ⟨message, hpassive⟩ := hready
  refine wp_sendResponse _ _ _ hpassive (fun evs last w hevs h hi => ?_) fun e w evs h => caught_halt h nofun nofun
  have hwevs : w.events = evs := h.events
  refine (Handled.responded hpassive hevs h).rounded ?_ ?_
  · simp only [World.reset, hi]
  · simp only [World.reset, hwevs, hi, List.append_assoc, List.singleton_append]

theorem handled_lockBus (hready : Ready impl .lockBus) :
    wp lockBus (Rounded impl env .lockBus) (Caught impl env .lockBus) { impl, env } := by
  obtain ⟨message, qq, rest, hactive, hqq⟩ := hready
  refine wp_lockBus _ _ _ hactive hqq (fun w h hi => ?_) (fun b w hb h hi => ?_) fun e w evs h =>
    caught_halt h nofun nofun
  · exact (Handled.won hactive hqq h).rounded hi h.events
  · exact (Handled.lost hactive hqq hb h).rounded hi h.events

theorem handled_sendMessage (hready : Ready impl .sendMessage) :
    wp sendMessage (Rounded impl env .sendMessage) (Caught impl env .sendMessage) { impl, env } := by
  obtain ⟨message, hactive⟩ := hready
  refine wp_sendMessage _ _ _ hactive ?_ ?_ ?_ fun e w evs h => caught_halt h nofun nofun
  · intro htype evs w hevs h hi
    exact (Handled.broadcast hactive htype hevs h).rounded hi h.events
  · intro htype evs w hevs h hi
    exact (Handled.acked hactive htype hevs h).rounded hi h.events
  · intro _ evs last w _ hevs h hi
    exact (Handled.unacked hactive hevs h).rounded hi h.events

theorem handled_receiveResponse (hready : Ready impl .receiveResponse) :
    wp receiveResponse (Rounded impl env .receiveResponse) (Caught impl env .receiveResponse)
      { impl, env } := by
  obtain ⟨message, hactive⟩ := hready
  refine wp_receiveResponse _ _ _ hactive ?_ ?_ ?_ ?_
  · intro evs nn message' w₁ w hevs h₁ hnn h hcore hstate hi
    refine (Handled.responseOversize hactive hevs h₁ hnn h hcore hstate).rounded ?_ ?_
    · simp only [World.reset, hi]
      rfl
    · simp only [World.reset, h.events, h₁.events, hi, resetEvents, List.nil_append, List.append_assoc,
        List.singleton_append]
  · intro evs raw s stored x w₁ w hevs h₁ hraw ht h hi
    refine (Handled.accepted hactive hevs h₁ hraw ht h).rounded hi ?_
    rw [h.events, h₁.events, List.nil_append]
  · intro evs evs' message' w₁ w _ h₁ _ h hcore hstate hi
    refine (Handled.rejected hactive (h₁.trans h) hcore hstate).rounded hi ?_
    exact (h₁.trans h).events
  · intro e w₁ w evs evs' h₁ h _ _
    exact caught_halt (h₁.halt h) (by simp) (by simp)

theorem handled_freeBus :
    wp freeBus (Rounded impl env .freeBus) (Caught impl env .freeBus) { impl, env } := by
  refine wp_freeBus _ _ _ (fun x w h hi => ?_) fun e w evs h hevs hactive =>
    caught_halt h (fun _ => ⟨hevs, hactive⟩) nofun
  refine (Handled.freed h).rounded ?_ ?_
  · simp only [World.reset, hi]
  · simp only [World.reset, h.events, hi]
    rfl

theorem handled_handler {state : State} (hready : Ready impl state) :
    wp (handler state) (Rounded impl env state) (Caught impl env state) { impl, env } := by
  cases state with
  | idleSystem => exact handled_idleSystem
  | openDevice => exact handled_openDevice
  | monitorBus => exact handled_monitorBus
  | receiveMessage => exact handled_receiveMessage hready
  | processMessage => exact handled_processMessage hready
  | sendResponse => exact handled_sendResponse hready
  | lockBus => exact handled_lockBus hready
  | sendMessage => exact handled_sendMessage hready
  | receiveResponse => exact handled_receiveResponse hready
  | freeBus => exact handled_freeBus

/-- **A round of the loop in `run` does what `Handled` lists, and nothing else.** -/
theorem handled {state : State} (hready : Ready impl state) :
    wp (runState state) (Rounded impl env state)
      (fun e w => Handled impl env state (.error e) w.impl w.events) { impl, env } :=
  wp_runState state (handled_handler hready)

/-- A handler that returns ends a round without an exception. -/
theorem handled_of_ok {state next : State} {w : World} (hready : Ready impl state)
    (h : exec (handler state) { impl, env } = (.ok next, w)) :
    Handled impl env state (.ok next) w.impl w.events := by
  have hrounded : Rounded impl env state next w := wp_ok (handled_handler hready) h
  exact hrounded

theorem not_throws_of_ok {state next : State} {w : World}
    (h : exec (handler state) { impl, env } = (.ok next, w)) : ¬ Throws impl env state := by
  rintro ⟨e, w', h', -⟩
  rw [h] at h'
  exact nomatch h'

end Round

/-! ### What a round keeps -/

/-- The members that no handler changes. -/
def EbusImpl.settings (impl : EbusImpl) : EbusImpl :=
  { impl.shell with online := false, close := false, messageQueue := [], activeMessage := none }

section Shell

variable {impl impl' : EbusImpl} (h : impl'.shell = impl.shell)

include h

theorem shell_address : impl'.address = impl.address := by
  have ha := congrArg EbusImpl.address h
  exact ha

theorem shell_slaveAddress : impl'.slaveAddress = impl.slaveAddress := by
  have ha := congrArg EbusImpl.slaveAddress h
  exact ha

theorem shell_messageQueue : impl'.messageQueue = impl.messageQueue := by
  have hq := congrArg EbusImpl.messageQueue h
  exact hq

theorem shell_activeMessage :
    impl'.activeMessage.map Message.core = impl.activeMessage.map Message.core := by
  have ha := congrArg EbusImpl.activeMessage h
  exact ha

theorem shell_close : impl'.close = impl.close := by
  have hc := congrArg EbusImpl.close h
  exact hc

theorem shell_online : impl'.online = impl.online := by
  have ho := congrArg EbusImpl.online h
  exact ho

theorem shell_settings : impl'.settings = impl.settings := by
  unfold EbusImpl.settings
  rw [h]

end Shell

/-- The messages that the thread holds. -/
def EbusImpl.held (impl : EbusImpl) : List Message := impl.activeMessage.toList ++ impl.messageQueue

@[simp] theorem notifiedMessages_append (l r : List Event) :
    notifiedMessages (l ++ r) = notifiedMessages l ++ notifiedMessages r := List.filterMap_append

@[simp] theorem notifiedMessages_nil : notifiedMessages [] = [] := rfl

@[simp] theorem notifiedMessages_published (message response : List Byte) (evs : List Event) :
    notifiedMessages (.published message response :: evs) = notifiedMessages evs := rfl

@[simp] theorem notifiedMessages_wrote (b : Byte) (evs : List Event) :
    notifiedMessages (.wrote b :: evs) = notifiedMessages evs := rfl

@[simp] theorem notifiedMessages_got (b : Byte) (evs : List Event) :
    notifiedMessages (.got b :: evs) = notifiedMessages evs := rfl

@[simp] theorem notifiedMessages_notified (message : Message) (evs : List Event) :
    notifiedMessages (.notified message :: evs) = message :: notifiedMessages evs := rfl

theorem Quiet.notifiedMessages {evs : List Event} (h : Quiet evs) : notifiedMessages evs = [] := by
  induction evs with
  | nil => rfl
  | cons e evs ih =>
    rw [quiet_cons] at h
    cases e with
    | wrote b => exact ih h.2
    | got b => exact ih h.2
    | processed message => exact nomatch h.1
    | published message response => exact nomatch h.1
    | notified message => exact nomatch h.1

@[simp] theorem notifiedMessages_resetEvents (message : Option Message) :
    notifiedMessages (resetEvents message) = message.toList := by
  rcases message with _ | message <;> rfl

@[simp] theorem notifiedMessages_receivedEvents (m : Master) (stored : Sequence) :
    notifiedMessages (receivedEvents m stored) = [] := by
  unfold receivedEvents
  split_ifs <;> rfl

@[simp] theorem notifiedMessages_processEvents (impl : EbusImpl) (stored : Sequence) :
    notifiedMessages (processEvents impl stored) = [] := by
  unfold processEvents
  split_ifs <;> rfl

theorem Overheard.notifiedMessages {seq : Sequence} {evs : List Event} (h : Overheard seq evs) :
    notifiedMessages evs = [] := by
  cases h <;> rfl

section Kept

variable {impl impl' : EbusImpl} {env : Env} {state : State} {result : Except Stop State}
  {evs : List Event}

theorem Handled.address (h : Handled impl env state result impl' evs) :
    impl'.address = impl.address := by
  cases h with
  | oversizeAlone _ h => exact shell_address h.shell
  | misread _ _ h => exact shell_address h.shell
  | device h =>
    have ha := shell_address h.shell
    exact ha
  | hung h => exact shell_address h.shell
  | _ => rfl

theorem Handled.slaveAddress (h : Handled impl env state result impl' evs) :
    impl'.slaveAddress = impl.slaveAddress := by
  cases h with
  | oversizeAlone _ h => exact shell_slaveAddress h.shell
  | misread _ _ h => exact shell_slaveAddress h.shell
  | device h =>
    have ha := shell_slaveAddress h.shell
    exact ha
  | hung h => exact shell_slaveAddress h.shell
  | _ => rfl

theorem Handled.settings (h : Handled impl env state result impl' evs) :
    impl'.settings = impl.settings := by
  cases h with
  | oversizeAlone _ h => exact shell_settings h.shell
  | misread _ _ h => exact shell_settings h.shell
  | device h =>
    have hs := shell_settings h.shell
    exact hs
  | hung h => exact shell_settings h.shell
  | _ => rfl

theorem Handled.running (h : Handled impl env state result impl' evs) : impl'.running = impl.running := by
  have hr := congrArg EbusImpl.running h.settings
  exact hr

theorem Handled.notify (h : Handled impl env state result impl' evs) : impl'.notify = impl.notify := by
  have hn := congrArg EbusImpl.notify h.settings
  exact hn

theorem Handled.lockCounterMax (h : Handled impl env state result impl' evs) :
    impl'.lockCounterMax = impl.lockCounterMax := by
  have hl := congrArg EbusImpl.lockCounterMax h.settings
  exact hl

/-- Only `idleSystem` clears `m_close`. -/
theorem Handled.close (h : Handled impl env state result impl' evs) (hstate : state ≠ .idleSystem) :
    impl'.close = impl.close := by
  cases h with
  | idle => exact absurd rfl hstate
  | oversizeAlone _ h => exact shell_close h.shell
  | misread _ _ h => exact shell_close h.shell
  | device h =>
    have hc := shell_close h.shell
    exact hc
  | hung h => exact shell_close h.shell
  | _ => rfl

/-- Only `idleSystem` blocks. -/
theorem Handled.not_blocked (h : Handled impl env state result impl' evs)
    (hwait : Control.after result = .waiting) :
    state = .idleSystem ∧ impl.notify = false ∧ impl' = idleImpl impl := by
  cases h with
  | idle hresult =>
    rcases hresult with ⟨-, rfl⟩ | ⟨hnotify, rfl⟩
    · exact nomatch hwait
    · exact ⟨rfl, hnotify, rfl⟩
  | _ => exact nomatch hwait

/-- `idleSystem` blocks unless `open` has been called. -/
theorem Handled.idle_cases (h : Handled impl env .idleSystem result impl' evs) :
    impl' = idleImpl impl ∧ (impl.notify = true ∧ result = .ok .openDevice ∨
      impl.notify = false ∧ result = .error .blocked) := by
  generalize hstate : State.idleSystem = state at h
  cases h with
  | idle hresult => exact ⟨rfl, hresult⟩
  | device _ _ _ _ hidle => exact absurd hstate.symm hidle
  | hung _ hidle => exact absurd hstate.symm hidle
  | _ => exact nomatch hstate

theorem Handled.blocked (h : Handled impl env .idleSystem result impl' evs)
    (hnotify : impl.notify = false) : Control.after result = .waiting := by
  rcases h.idle_cases.2 with ⟨hset, -⟩ | ⟨-, rfl⟩
  · rw [hnotify] at hset
    exact nomatch hset
  · rfl

/-- The message is one of the messages `l`, up to what a transmission changes in it. -/
def Message.From (message : Message) (l : List Message) : Prop :=
  ∃ message' ∈ l, message.core = message'.core

theorem Message.from_of_mem {message : Message} {l : List Message} (h : message ∈ l) :
    message.From l := ⟨message, h, rfl⟩

/-- A piece that keeps the shell keeps the messages. -/
theorem held_of_shell {impl impl' : EbusImpl} (h : impl'.shell = impl.shell) {message : Message}
    (hm : message ∈ impl'.held) : message.From impl.held := by
  rw [EbusImpl.held, List.mem_append, Option.mem_toList, shell_messageQueue h] at hm
  rcases hm with hm | hm
  · have hactive := shell_activeMessage h
    rw [hm, Option.map_some, eq_comm, Option.map_eq_some_iff] at hactive
    obtain ⟨message', hm', hcore⟩ := hactive
    exact ⟨message', by simp [EbusImpl.held, hm'], hcore.symm⟩
  · exact Message.from_of_mem (List.mem_append_right _ hm)

/-- A change of what a transmission changes in the active message. -/
theorem held_of_active {impl : EbusImpl} {message message' : Message}
    (hactive : impl.activeMessage = some message) {message₀ : Message}
    (hm : message₀ ∈ EbusImpl.held { impl with activeMessage := some message' })
    (hcore : message'.core = message.core) : message₀.From impl.held := by
  rw [EbusImpl.held, Option.toList_some, List.singleton_append, List.mem_cons] at hm
  rcases hm with rfl | hm
  · exact ⟨message, by simp [EbusImpl.held, hactive], hcore⟩
  · exact Message.from_of_mem (List.mem_append_right _ hm)

theorem Dequeued.held {impl : EbusImpl} {active : Option Message} {queue : List Message}
    (h : Dequeued impl active queue) : active.toList ++ queue = impl.held := by
  cases h with
  | keep => rfl
  | take message queue hactive hqueue =>
    rw [EbusImpl.held, hactive, hqueue]
    rfl

theorem held_of_dequeued {impl : EbusImpl} {active : Option Message} {queue : List Message}
    (h : Dequeued impl active queue) {message : Message} (hm : message ∈ active.toList ++ queue) :
    message ∈ impl.held := by
  rwa [h.held] at hm

/-- The thread holds only messages that it held before. -/
theorem Handled.held (h : Handled impl env state result impl' evs) {message : Message}
    (hm : message ∈ impl'.held) : message.From impl.held := by
  cases h with
  | oversizeAlone _ h => exact held_of_shell h.shell hm
  | misread _ _ h => exact held_of_shell h.shell hm
  | hung h => exact held_of_shell h.shell hm
  | device h => exact held_of_shell h.shell (List.mem_append_right _ hm)
  | synced h hqueue => exact Message.from_of_mem (held_of_dequeued hqueue hm)
  | acked hactive => exact held_of_active hactive hm rfl
  | unacked hactive => exact held_of_active hactive hm rfl
  | accepted hactive => exact held_of_active hactive hm rfl
  | rejected hactive _ hcore => exact held_of_active hactive hm hcore
  | idle => exact Message.from_of_mem (List.mem_append_right _ hm)
  | opened => exact Message.from_of_mem (List.mem_append_right _ hm)
  | oversize => exact Message.from_of_mem (List.mem_append_right _ hm)
  | responded => exact Message.from_of_mem (List.mem_append_right _ hm)
  | responseOversize => exact Message.from_of_mem (List.mem_append_right _ hm)
  | freed => exact Message.from_of_mem (List.mem_append_right _ hm)
  | unopened => exact Message.from_of_mem (List.mem_append_right _ hm)
  | _ => exact Message.from_of_mem hm

/-- The device serves `sendResponse` to its end. -/
def Answered (tel : Telegram) (env : Env) : Prop :=
  ∃ evs last rest, PartSent (partBytes tel.slave tel.slaveCRC) evs last ∧
    env.reads = (gotBytes evs).map .byte ++ rest ∧
    ∀ r ∈ env.sends.take (wroteBytes evs).length, r = .ok

/-- The rounds that complete a message without a failure. -/
inductive Completes (impl : EbusImpl) (env : Env) : State → Prop
  | idle : Completes impl env .idleSystem
  | opened : Completes impl env .openDevice
  | answered {message : Message} (hpassive : impl.passiveMessage = some message)
      (h : Answered message.telegram env) : Completes impl env .sendResponse
  | freed : Completes impl env .freeBus

/-- A round completes only the active message: as its last events, and as failed or at one of four
places. -/
structure Completed (impl : EbusImpl) (env : Env) (state : State) (evs : List Event)
    (message : Message) : Prop where
  last : ∃ close, evs = close ++ finish message ∧ notifiedMessages close = []
  active : ∃ message', impl.activeMessage = some message' ∧ message.core = message'.core ∧
    (message.state ≠ 0 ∨ message = message' ∧ Completes impl env state)

theorem Handled.completed (h : Handled impl env state result impl' evs) {message : Message}
    (hm : message ∈ notifiedMessages evs) : Completed impl env state evs message := by
  have hreset : ∀ {close : List Event}, notifiedMessages close = [] → Completes impl env state →
      evs = close ++ resetEvents impl.activeMessage → Completed impl env state evs message := by
    rintro close hclose hcompletes rfl
    rw [notifiedMessages_append, hclose, List.nil_append, notifiedMessages_resetEvents,
      Option.mem_toList] at hm
    rw [hm]
    exact ⟨⟨close, rfl, hclose⟩, message, hm, rfl, .inr ⟨rfl, hcompletes⟩⟩
  have hfinish : ∀ (message₁ : Message) {close : List Event} {message₂ : Message},
      notifiedMessages close = [] → impl.activeMessage = some message₂ → message₁.core = message₂.core → message₁.state ≠ 0 →
      evs = close ++ finish message₁ → Completed impl env state evs message := by
    rintro message₁ close message₂ hclose hactive hcore hstate rfl
    rw [notifiedMessages_append, hclose] at hm
    obtain rfl := List.mem_singleton.1 hm
    exact ⟨⟨close, rfl, hclose⟩, message₂, hactive, hcore, .inl hstate⟩
  have hfailed : ∀ {close : List Event} {impl₁ : EbusImpl}, notifiedMessages close = [] →
      impl₁.shell = impl.shell → evs = close ++ resetEvents (impl₁.activeMessage.map failedMessage) →
      Completed impl env state evs message := by
    intro close impl₁ hclose hshell hevs
    have hactive := shell_activeMessage hshell
    rcases h₁ : impl₁.activeMessage with _ | message₁
    · rw [hevs, notifiedMessages_append, hclose, h₁] at hm
      exact absurd hm List.not_mem_nil
    · rw [h₁, Option.map_some, eq_comm, Option.map_eq_some_iff] at hactive
      obtain ⟨message₂, hm₂, hcore⟩ := hactive
      rw [h₁] at hevs
      have hstate : (failedMessage message₁).state ≠ 0 := by
        show EBUS_ERR_DEVICE ≠ 0
        decide
      exact hfinish (failedMessage message₁) hclose hm₂ hcore.symm hstate hevs
  have hnone : notifiedMessages evs = [] → Completed impl env state evs message := by
    intro hevs
    rw [hevs] at hm
    exact absurd hm List.not_mem_nil
  cases h with
  | idle =>
    refine hreset ?_ .idle (List.nil_append _).symm
    rfl
  | opened _ h => exact hreset h.quiet.notifiedMessages .opened rfl
  | collected _ _ h => exact hnone h.quiet.notifiedMessages
  | addressed _ h => exact hnone h.quiet.notifiedMessages
  | synced h _ hevs => exact hnone hevs.notifiedMessages
  | oversizeAlone _ h => exact hnone h.quiet.notifiedMessages
  | misread _ _ h => exact hnone h.quiet.notifiedMessages
  | @oversize _ _ _ message₁ _ _ h hactive =>
    refine hfinish { message₁ with state := EBUS_ERR_TRANSMIT } h.quiet.notifiedMessages hactive rfl ?_ rfl
    show EBUS_ERR_TRANSMIT ≠ 0
    decide
  | received _ _ _ _ h =>
    refine hnone ?_
    rw [notifiedMessages_append, notifiedMessages_receivedEvents, List.append_nil]
    exact h.quiet.notifiedMessages
  | refused _ _ _ h => exact hnone h.quiet.notifiedMessages
  | answer | drop => exact hnone (notifiedMessages_processEvents _ _)
  | responded hpassive hevs h =>
    have hanswered : Answered _ env := ⟨_, _, _, hevs, h.reads, h.sent⟩
    refine hreset ?_ (.answered hpassive hanswered) (List.append_cons _ _ _)
    rw [notifiedMessages_append, h.quiet.notifiedMessages]
    rfl
  | won _ _ h => exact hnone h.quiet.notifiedMessages
  | lost _ _ _ h => exact hnone h.quiet.notifiedMessages
  | broadcast _ _ _ h => exact hnone h.quiet.notifiedMessages
  | acked _ _ _ h => exact hnone h.quiet.notifiedMessages
  | unacked _ _ h => exact hnone h.quiet.notifiedMessages
  | responseOversize hactive _ h _ h' hcore hstate =>
    refine hfinish _ (h.trans h').quiet.notifiedMessages hactive hcore ?_ (List.append_cons _ _ _)
    rw [hstate]
    decide
  | accepted _ _ h _ _ h' => exact hnone (h.trans h').quiet.notifiedMessages
  | rejected _ h => exact hnone h.quiet.notifiedMessages
  | freed h => exact hreset h.quiet.notifiedMessages .freed rfl
  | unopened => exact hfailed notifiedMessages_nil rfl rfl
  | device h => exact hfailed h.quiet.notifiedMessages h.shell rfl
  | hung h => exact hnone h.quiet.notifiedMessages

/-- The thread completes only messages that it held. -/
theorem Handled.notified (h : Handled impl env state result impl' evs) {message : Message}
    (hm : message ∈ notifiedMessages evs) : message.From impl.held := by
  obtain ⟨message', hactive, hcore, -⟩ := (h.completed hm).active
  exact ⟨message', by simp [EbusImpl.held, hactive], hcore⟩

end Kept

/-! ### The steps of the system -/

/-- The handler that runs next can start. -/
def Control.Ready (impl : EbusImpl) : Control → Prop
  | .loop state => EBusFsm.Ready impl state
  | .check state => EBusFsm.Ready impl state
  | _ => True

/-- The actions that set a member. -/
def Action.sets : Action → Bool
  | .openCall | .closeCall | .registerProcess | .setLockCounterMax _ | .setOpenCounterMax _ | .halt => true
  | _ => false

/-- What one step of the system does. -/
inductive Stepped (s : System) : Action → System → Prop
  | setting (a : Action) (running close processing notify : Bool) (lockMax openMax : Int)
      (hsets : a.sets = true)
      (hrunning : running = s.impl.running ∨ a = .halt)
      (hclose : close = (s.impl.close || a = .closeCall))
      (hnotify : notify = (s.impl.notify || a = .openCall))
      (hlock : lockMax = s.impl.lockCounterMax ∨ a = .setLockCounterMax lockMax)
      (hopen : openMax = s.impl.openCounterMax ∨ a = .setOpenCounterMax openMax) :
      Stepped s a { s with impl := { s.impl with
        running, close, processing, notify, lockCounterMax := lockMax, openCounterMax := openMax } }
  | failed {message : List Byte} {result : Int} {response : List Byte} (hresult : result ≠ 0) :
      Stepped s (.transmit message) { s with returned := ⟨0, message, result, response⟩ :: s.returned }
  | called {message : List Byte} {tel : Telegram} {m : Master}
      (ht : m.Text (s.impl.address :: message) tel.master)
      (htel : tel = ({} : Telegram).withMaster m tel.master m.crc SEQ_OK) :
      Stepped s (.transmit message) { s with
        nextId := s.nextId + 1
        calls := ⟨s.nextId, message⟩ :: s.calls
        entering := ⟨s.nextId, tel, 0⟩ :: s.entering }
  | enqueued {message : Message} (hmessage : message ∈ s.entering) :
      Stepped s (.enqueue message) { s with
        entering := s.entering.erase message
        impl := { s.impl with messageQueue := s.impl.messageQueue ++ [message] } }
  | awoken {call : Call} {message : Message} (hcall : call ∈ s.calls)
      (hmessage : message ∈ s.completed) (hid : message.id = call.id) :
      Stepped s (.awake call message) { s with
        calls := s.calls.erase call
        returned := ⟨call.id, call.request, message.state, message.telegram.slave.seq⟩ :: s.returned }
  | stopped {state : State} {env : Env} (hstate : s.control = .loop state)
      (hrunning : s.impl.running = false) : Stepped s (.thread env) { s with control := .stopped }
  | thread {state : State} {env : Env} {result : Except Stop State} {impl' : EbusImpl}
      {evs : List Event} (hstate : s.control = .loop state)
      (h : Handled s.impl env state result impl' evs) (hrunning : s.impl.running = true) :
      Stepped s (.thread env) { s with
        impl := impl'
        control := .after result
        completed := notifiedMessages evs ++ s.completed
        log := s.log ++ evs }
  | check {state : State} (hstate : s.control = .check state) :
      Stepped s .check { s with control := .loop (if s.impl.close then .idleSystem else state) }
  | wake (hwait : s.control = .waiting) :
      Stepped s .wake { s with
        impl := { s.impl with notify := false }, control := .check .openDevice }

theorem runThread_cases {s : System} {state : State} (env : Env) (hready : Ready s.impl state) :
    s.impl.running = false ∧ s.runThread state env = { s with control := .stopped } ∨
      s.impl.running = true ∧ ∃ result impl' evs, Handled s.impl env state result impl' evs ∧
        s.runThread state env =
          { s with
            impl := impl'
            control := .after result
            completed := notifiedMessages evs ++ s.completed
            log := s.log ++ evs } := by
  unfold System.runThread
  by_cases hrun : s.impl.running = true
  · refine .inr ⟨hrun, ?_⟩
    have hwp := @handled _ env _ hready
    simp only [hrun, Bool.not_true, Bool.false_eq_true, if_false]
    rcases hx : exec (runState state) { impl := s.impl, env } with ⟨e | next, w⟩
    · have hh := wp_error hwp hx
      exact ⟨.error e, w.impl, w.events, hh, rfl⟩
    · have hh := wp_ok hwp hx
      exact ⟨.ok next, w.impl, w.events, hh, rfl⟩
  · refine .inl ⟨(Bool.not_eq_true _).mp hrun, ?_⟩
    simp only [hrun, Bool.not_false, if_true]

/-- What `callTransmit` does. -/
theorem stepped_transmit {s s' : System} {message : List Byte}
    (h : s.callTransmit message = some s') : Stepped s (.transmit message) s' := by
  unfold System.callTransmit at h
  rw [createMasterFrom_eq] at h
  rcases hrun : ({} : Telegram).createMaster ⟨s.impl.address :: message, false⟩ with e | ⟨tel, seq⟩
  · rw [hrun] at h
    exact nomatch h
  rw [hrun] at h
  simp only at h
  by_cases hstate : tel.masterState ≠ SEQ_OK
  · rw [if_pos hstate] at h
    cases h
    exact .failed (by decide)
  rw [if_neg hstate] at h
  by_cases hmaster : (!isMaster s.impl.address) = true
  · rw [if_pos hmaster] at h
    cases h
    exact .failed (by decide)
  rw [if_neg hmaster] at h
  by_cases honline : (!s.impl.online) = true
  · rw [if_pos honline] at h
    cases h
    exact .failed (by decide)
  rw [if_neg honline] at h
  cases h
  obtain ⟨m, stored, ht, htel⟩ := Telegram.createMaster_ok hrun (not_not.1 hstate)
  obtain rfl : tel.master = stored := by
    rw [htel]
    rfl
  exact .called ht htel

/-- **A step of the system does what `Stepped` lists, and nothing else.** -/
theorem stepped {s s' : System} {a : Action} (hready : s.control.Ready s.impl)
    (hstep : s.step a = some s') : Stepped s a s' := by
  cases a with
  | transmit message => exact stepped_transmit hstep
  | thread env =>
    simp only [System.step] at hstep
    rcases hstate : s.control with state | _ | _ | _ | _ | _
    · rw [hstate] at hstep hready
      cases hstep
      rcases runThread_cases env hready with ⟨hrunning, heq⟩ | ⟨hrunning, result, impl', evs, hh, heq⟩
      · rw [heq]
        exact .stopped hstate hrunning
      · rw [heq]
        exact .thread hstate hh hrunning
    all_goals
      rw [hstate] at hstep
      exact nomatch hstep
  | check =>
    simp only [System.step] at hstep
    rcases hstate : s.control with _ | state | _ | _ | _ | _
    case check =>
      rw [hstate] at hstep
      cases hstep
      exact .check hstate
    all_goals
      rw [hstate] at hstep
      exact nomatch hstep
  | wake =>
    simp only [System.step] at hstep
    rcases hstate : s.control with _ | _ | _ | _ | _ | _
    case waiting =>
      rw [hstate] at hstep
      cases hstep
      exact .wake hstate
    all_goals
      rw [hstate] at hstep
      exact nomatch hstep
  | enqueue message =>
    simp only [System.step] at hstep
    split_ifs at hstep with hmessage
    cases hstep
    exact .enqueued hmessage
  | awake call message =>
    simp only [System.step] at hstep
    split_ifs at hstep with hcall
    cases hstep
    exact .awoken hcall.1 hcall.2.1 hcall.2.2
  | halt =>
    simp only [System.step] at hstep
    split_ifs at hstep with honline
    cases hstep
    exact .setting _ false s.impl.close s.impl.processing s.impl.notify s.impl.lockCounterMax
      s.impl.openCounterMax rfl (.inr rfl) (by simp) (by simp) (.inl rfl) (.inl rfl)
  | openCall =>
    cases hstep
    exact .setting _ s.impl.running s.impl.close s.impl.processing true s.impl.lockCounterMax
      s.impl.openCounterMax rfl (.inl rfl) (by simp) (by simp) (.inl rfl) (.inl rfl)
  | closeCall =>
    cases hstep
    exact .setting _ s.impl.running true s.impl.processing s.impl.notify s.impl.lockCounterMax
      s.impl.openCounterMax rfl (.inl rfl) (by simp) (by simp) (.inl rfl) (.inl rfl)
  | registerProcess =>
    cases hstep
    exact .setting _ s.impl.running s.impl.close true s.impl.notify s.impl.lockCounterMax
      s.impl.openCounterMax rfl (.inl rfl) (by simp) (by simp) (.inl rfl) (.inl rfl)
  | setLockCounterMax value =>
    cases hstep
    exact .setting _ s.impl.running s.impl.close s.impl.processing s.impl.notify value
      s.impl.openCounterMax rfl (.inl rfl) (by simp) (by simp) (.inr rfl) (.inl rfl)
  | setOpenCounterMax value =>
    cases hstep
    exact .setting _ s.impl.running s.impl.close s.impl.processing s.impl.notify
      s.impl.lockCounterMax value rfl (.inl rfl) (by simp) (by simp) (.inl rfl) (.inr rfl)

end EBusFsm

import EBusFsm.Machine.Stream
import EBusFsm.Machine.Script
import EBusFsm.Machine.Release
import EBusFsm.Machine.Queue

/-!
# Delivery over the bus

Two machines on one bus: the active one has a request of a call of `transmit` for the passive one and is about
to arbitrate, the passive one monitors the bus, and its callback answers. `delivered` says that the bus carries
the whole exchange and nothing else first, that the callback is invoked once, with the message, and that the call
returns zero and what the callback answered, provided that the two parts are `Clear`.

The proof follows the exchange on both sides, handler by handler, and leaves the interleaving to the bus: each
machine does what it sees of the transcript.
-/

namespace EBusFsm

open Prog

/-! ### The property -/

inductive Role
  | active
  | passive
  deriving DecidableEq, Repr

/-- `A` is about to arbitrate for the request of `call`, which is the message `m` for `B`; `B` monitors an idle
bus, and its callback answers with the part `s`. -/
structure Meeting (A B : System) (env : Env) (call : Call) (m : Master) (s : Slave) : Prop where
  active : ∃ address as, Run System.step (fun _ _ => True) (System.init address) as A
  locking : A.control = .loop .lockBus
  operating : A.impl.running = true ∧ A.impl.close = false
  calling : call ∈ A.calls ∧ ∃ message, A.impl.activeMessage = some message ∧ message.id = call.id
  request : ∃ stored, m.Text (A.impl.address :: call.request) stored
  passive : ∃ address as, Run System.step (fun _ _ => True) (System.init address) as B
  monitoring : B.control = .loop .monitorBus ∧ B.impl.sequence.seq = []
  operating' : B.impl.running = true ∧ B.impl.close = false
  addressed : m.zz = B.impl.slaveAddress
  processing : B.impl.processing = true
  reaction : env.reaction = .response
  answer : ∃ stored, s.Text env.response stored

/-- The two machines on the bus. -/
def parties (A B : System) (env env' : Env) : Role → Listener Byte
  | .active => A.listener env
  | .passive => B.listener env'

/-- The messages that the callback got. -/
def processedMessages (evs : List Event) : List (List Byte) :=
  evs.filterMap fun e => match e with | .processed message => some message | _ => none

/-- The call returns this as soon as it is notified, and it has been. -/
def System.Returns (s : System) (call : Call) (result : Int) (response : List Byte) : Prop :=
  (∃ message s', s.step (.awake call message) = some s') ∧
    ∀ message s', s.step (.awake call message) = some s' →
      s'.returned = ⟨call.id, call.request, result, response⟩ :: s.returned

/-- When the bus has carried `l`, the callback was invoked once, with `m`, and the call returns zero and `s`. -/
structure Delivered (A B : System) (env env' : Env) (call : Call) (m : Master) (s : Slave) (l : List Byte) :
    Prop where
  processed : ∃ B' evs, Listens env' B l B' ∧ B'.log = B.log ++ evs ∧ processedMessages evs = [m.bytes]
  returned : ∃ A', Listens env A l A' ∧ A'.Returns call 0 s.bytes

/-- The bus carries a stream that delivers, and before it nothing but its beginnings. -/
def Delivers (A B : System) (env env' : Env) (call : Call) (m : Master) (s : Slave) : Prop :=
  ∃ l, Carried (parties A B env env') l ∧ Delivered A B env env' call m s l ∧
    ∀ l', Carried (parties A B env env') l' → l' <+: l ∨ l <+: l'

/-! ### A message fails on its way out only -/

/-- The active message has not failed, or it is about to be completed. -/
def Unfailed (impl : EbusImpl) (state : State) : Prop :=
  state = .freeBus ∨ state = .idleSystem ∨ ∀ message, impl.activeMessage = some message → message.state = 0

theorem Unfailed.of_none {impl : EbusImpl} {state : State} (h : impl.activeMessage = none) :
    Unfailed impl state := by
  refine .inr (.inr fun message hactive => ?_)
  rw [h] at hactive
  exact nomatch hactive

theorem Handled.unfailed {impl impl' : EbusImpl} {env : Env} {state : State} {result : Except Stop State}
    {evs : List Event} (h : Handled impl env state result impl' evs) (hs : Unfailed impl state)
    (hqueue : ∀ message ∈ impl.messageQueue, message.state = 0) :
    (Control.after result).Holds (Unfailed impl') := by
  have hkeep : ∀ {impl' : EbusImpl} {next : State}, impl'.activeMessage = impl.activeMessage →
      state ≠ .freeBus → state ≠ .idleSystem → Unfailed impl' next := by
    intro impl' next hactive hfree hidle
    refine .inr (.inr fun message hm => ?_)
    exact (hs.resolve_left hfree).resolve_left hidle message (hactive.symm.trans hm)
  cases h with
  | idle hresult =>
    rcases hresult with ⟨-, rfl⟩ | ⟨-, rfl⟩
    · exact .of_none rfl
    · exact .of_none rfl
  | opened | oversize | responded | responseOversize | freed | unopened | device => exact .of_none rfl
  | collected | addressed | received | refused | answer | drop | won | lost => exact hkeep rfl nofun nofun
  | broadcast | unacked | accepted | rejected => exact .inl rfl
  | synced h hdequeued hevs hseq =>
    show Unfailed _ _
    cases hdequeued with
    | keep => exact hkeep rfl nofun nofun
    | take message queue hnone hq =>
      refine .inr (.inr fun message' hm => ?_)
      obtain rfl := Option.some_inj.1 hm
      exact hqueue message (by rw [hq]; exact List.mem_cons_self)
  | @acked message evs w hactive =>
    show Unfailed _ _
    refine .inr (.inr fun message' hm => ?_)
    obtain rfl := Option.some_inj.1 hm
    exact (hs.resolve_left nofun).resolve_left nofun message hactive
  | oversizeAlone | misread | hung => trivial

/-- No message has failed before it is about to be completed. -/
structure Trying (s : System) : Prop where
  waiting : ∀ message ∈ s.entering ++ s.impl.messageQueue, message.state = 0
  active : s.control.Holds (Unfailed s.impl)

theorem trying_step {address : Byte} {s s' : System} {a : Action} (hsound : Sound address s) (h : Trying s)
    (hstep : s.step a = some s') : Trying s' := by
  obtain ⟨hwaiting, hactive⟩ := h
  cases stepped hsound.control hstep with
  | setting => exact ⟨hwaiting, hactive⟩
  | failed | awoken => exact ⟨hwaiting, hactive⟩
  | called =>
    refine ⟨fun message hm => ?_, hactive⟩
    rcases List.mem_cons.1 hm with rfl | hm
    · rfl
    · exact hwaiting message hm
  | @enqueued message hmessage =>
    refine ⟨fun message' hm => ?_, hactive⟩
    rcases List.mem_append.1 hm with hm | hm
    · exact hwaiting message' (List.mem_append_left _ (List.mem_of_mem_erase hm))
    rcases List.mem_append.1 hm with hm | hm
    · exact hwaiting message' (List.mem_append_right _ hm)
    · obtain rfl := List.mem_singleton.1 hm
      exact hwaiting message' (List.mem_append_left _ hmessage)
  | stopped => exact ⟨hwaiting, trivial⟩
  | @thread _ _ _ impl' evs hstate hh =>
    rw [hstate] at hactive
    refine ⟨fun message hm => ?_, hh.unfailed hactive fun message hm =>
      hwaiting message (List.mem_append_right _ hm)⟩
    have hqueue : message ∈ s.entering ++ s.impl.messageQueue := by
      have hmoved := hh.moved
      generalize notifiedMessages evs = notified at hmoved
      rcases List.mem_append.1 hm with hm | hm
      · exact List.mem_append_left _ hm
      refine List.mem_append_right _ ?_
      cases hmoved with
      | kept hqueue => rwa [hqueue] at hm
      | taken _ hqueue =>
        rw [hqueue]
        exact List.mem_cons_of_mem _ hm
      | finished hqueue => rwa [hqueue] at hm
    exact hwaiting message hqueue
  | @check state hstate =>
    rw [hstate] at hactive
    refine ⟨hwaiting, ?_⟩
    show Unfailed s.impl (if s.impl.close then .idleSystem else state)
    split_ifs
    · exact .inr (.inl rfl)
    · exact hactive
  | wake hwait =>
    rw [hwait] at hactive
    exact ⟨hwaiting, hactive⟩

theorem trying_of_run {address : Byte} {guard : System → Action → Prop} {as : List Action} {s : System}
    (hrun : Run System.step guard (System.init address) as s) : Trying s :=
  (hrun.invariant (I := fun s => Sound address s ∧ Trying s)
    (fun _ _ _ h _ hstep => ⟨h.1.step hstep, trying_step h.1 h.2 hstep⟩)
    ⟨sound_init address, nofun, .of_none rfl⟩).2

/-! ### One round after the other -/

/-- The machine after a round. -/
def System.next (s : System) (w : World) (control : Control) : System :=
  { s with
    impl := w.impl
    control
    completed := notifiedMessages w.events ++ s.completed
    log := s.log ++ w.events }

section Round

variable {env : Env} {s s' : System} {state next : State} {w : World} {l l' : List Byte}

theorem thread_of_exec {result : Except Stop State} (hstate : s.control = .loop state)
    (hrunning : s.impl.running = true)
    (hrun : exec (runState state) ((World.start s.impl env).on l) = (result, w.on l')) :
    s.step (.thread (env.on l)) = some (s.next w (.after result)) := by
  have hon : (World.start s.impl env).on l = { impl := s.impl, env := env.on l } := rfl
  rw [hon] at hrun
  rw [System.step, hstate]
  simp only [runThread_eq hrunning, hrun]
  rfl

theorem runState_of_handler (hrun : exec (handler state) ((World.start s.impl env).on l) = (.ok next, w.on l')) :
    exec (runState state) ((World.start s.impl env).on l) = (.ok next, w.on l') := by
  rw [runState, exec_tryCatch, hrun]

/-- A handler that returns. -/
theorem Listens.of_exec (hstate : s.control = .loop state) (hrunning : s.impl.running = true)
    (hrun : exec (handler state) ((World.start s.impl env).on l) = (.ok next, w.on l'))
    (hclose : w.impl.close = false) (hrest : Listens env (s.next w (.loop next)) l' s') :
    Listens env s l s' := by
  obtain ⟨w', evs, l'', hw', hevs, hl⟩ := (causal_handler state).reads (World.start s.impl env) l
  rw [hrun] at hw'
  have hworld : w.on l' = w'.on l'' := hw'
  have hevents : w.events = evs := by
    show (w.on l').events = evs
    rw [hworld]
    exact hevs
  have hthread := thread_of_exec hstate hrunning (runState_of_handler hrun)
  have hcheck : (s.next w (.check next)).step .check = some (s.next w (.loop next)) := by
    simp only [System.step, System.next, hclose]
    rfl
  rw [hl, ← World.on_inj hworld, ← hevents] at hthread ⊢
  exact .round hthread rfl hcheck hrest

/-- A handler that waits. -/
theorem Listens.of_starved (hstate : s.control = .loop state) (hrunning : s.impl.running = true)
    (hrun : exec (handler state) ((World.start s.impl env).on l) = (.error .starved, w.on l')) :
    Listens env s l (s.next w .hung) := by
  have hrun' : exec (runState state) ((World.start s.impl env).on l) = (.error .starved, w.on l') := by
    rw [runState, exec_tryCatch, hrun]
    rfl
  exact .wait (thread_of_exec hstate hrunning hrun') rfl

end Round

/-! ### The two sides of an exchange -/

/-- What the bus carries. -/
def exchangeBytes (m : Master) (s : Slave) : List Byte :=
  m.frame ++ seqAck :: (s.frame ++ [seqAck, seqSyn])

/-- The active side takes part in the whole exchange. -/
theorem active_listens (env : Env) {A : System} {m : Master} {s : Slave} {message : Message}
    {stored storedSlave : Sequence} (hstate : A.control = .loop .lockBus) (hrunning : A.impl.running = true)
    (hclose : A.impl.close = false) (hactive : A.impl.activeMessage = some message)
    (hmaster : message.telegram.master = stored) (hstored : stored.seq = m.bytes)
    (hcrc : message.telegram.masterCRC = m.crc) (htype : message.telegram.type = .MS)
    (hclear : Clear s.bytes s.crc) (ht : s.Text (reduceBytes s.frame) storedSlave) :
    ∃ A' message', Listens env A (exchangeBytes m s) A' ∧
      A'.log = A.log ++ (echo m.frame ++ Event.got seqAck :: (s.frame.map Event.got ++
        echo [seqAck, seqSyn] ++ finish message')) ∧
      A'.calls = A.calls ∧ A'.completed = message' :: A.completed ∧
      message'.id = message.id ∧ message'.state = message.state ∧
      message'.telegram.slave = storedSlave := by
  obtain ⟨rest, hrest⟩ : ∃ rest, m.bytes = m.qq :: rest := ⟨_, rfl⟩
  have hqq : message.telegram.master.seq = m.qq :: rest := by
    rw [hmaster, hstored, hrest]
  have hframe : m.frame = m.qq :: (rest ++ [m.crc]) := by
    rw [Master.frame, hrest]
    rfl
  let message₁ : Message := { message with telegram := message.telegram.setSlaveACK seqAck }
  let message₂ : Message := { message₁ with telegram := respondedTelegram message₁.telegram s storedSlave }
  let w₁ : World := { impl := A.impl, env, events := [.wrote m.qq, .got m.qq] }
  let w₂ : World :=
    { impl := { A.impl with activeMessage := some message₁ }
      env, events := echo (rest ++ [m.crc]) ++ [.got seqAck] }
  let w₃ : World :=
    { impl := { A.impl with activeMessage := some message₂ }
      env, events := s.frame.map .got ++ [.wrote seqAck, .got seqAck] }
  let w₄ : World :=
    { impl := resetImpl w₃.impl, env, events := [.wrote seqSyn, .got seqSyn] ++ finish message₂ }
  let A₁ := A.next w₁ (.loop .sendMessage)
  let A₂ := A₁.next w₂ (.loop .receiveResponse)
  let A₃ := A₂.next w₃ (.loop .freeBus)
  let A₄ := A₃.next w₄ (.loop .monitorBus)
  have hlock : exec lockBus ((World.start A.impl env).on (exchangeBytes m s)) =
      (.ok .sendMessage, w₁.on (rest ++ m.crc :: seqAck :: (s.frame ++ [seqAck, seqSyn]))) := by
    have hbytes : exchangeBytes m s =
        m.qq :: (rest ++ m.crc :: seqAck :: (s.frame ++ [seqAck, seqSyn])) := by
      simp [exchangeBytes, hframe]
    rw [hbytes]
    exact exec_lockBus_on hactive hqq _
  have hsend : exec sendMessage
      ((World.start A₁.impl env).on (rest ++ m.crc :: seqAck :: (s.frame ++ [seqAck, seqSyn]))) =
      (.ok .receiveResponse, w₂.on (s.frame ++ [seqAck, seqSyn])) := by
    simp only [w₂]
    rw [← hcrc]
    exact exec_sendMessage_on hactive hqq htype (s.frame ++ [seqAck, seqSyn])
  have hreceive : exec receiveResponse ((World.start A₂.impl env).on (s.frame ++ [seqAck, seqSyn])) =
      (.ok .freeBus, w₃.on [seqSyn]) :=
    exec_receiveResponse_on rfl hclear ht [seqSyn]
  have hfree : exec freeBus ((World.start A₃.impl env).on [seqSyn]) = (.ok .monitorBus, w₄.on []) :=
    exec_freeBus_on []
  have hwait : Listens env A₄ [] (A₄.next (World.start A₄.impl env) .hung) :=
    .of_starved rfl hrunning rfl
  refine ⟨A₄.next (World.start A₄.impl env) .hung, message₂, ?_, ?_, rfl, ?_, rfl, rfl, rfl⟩
  · exact .of_exec hstate hrunning hlock hclose (.of_exec rfl hrunning hsend hclose
      (.of_exec rfl hrunning hreceive hclose (.of_exec rfl hrunning hfree hclose hwait)))
  · show A.log ++ w₁.events ++ w₂.events ++ w₃.events ++ w₄.events ++ [] = _
    simp [w₁, w₂, w₃, w₄, hframe, echo]
  · have hquiet₂ : Quiet w₂.events := by simp [w₂, Event.onWire]
    have hquiet₃ : Quiet w₃.events := by simp [w₃, Event.onWire]
    show notifiedMessages w₄.events ++ (notifiedMessages w₃.events ++ (notifiedMessages w₂.events ++
      (notifiedMessages w₁.events ++ A.completed))) = _
    rw [hquiet₂.notifiedMessages, hquiet₃.notifiedMessages]
    rfl

@[simp] theorem processedMessages_append (l r : List Event) :
    processedMessages (l ++ r) = processedMessages l ++ processedMessages r := List.filterMap_append

theorem Quiet.processedMessages {evs : List Event} (h : Quiet evs) : processedMessages evs = [] := by
  unfold EBusFsm.processedMessages
  rw [List.filterMap_eq_nil_iff]
  intro e he
  have hwire := h e he
  cases e <;> first | rfl | exact nomatch hwire

theorem processedMessages_resetEvents (message : Option Message) :
    processedMessages (resetEvents message) = [] := by
  cases message <;> rfl

theorem ticks_resetEvents (message : Option Message) : ticks (resetEvents message) = [] := by
  cases message <;> rfl

/-- A machine that may arbitrate waits for its next byte, and may write once before. -/
theorem Listens.rest {env : Env} {s : System} {next : State} (hstate : s.control = .loop next)
    (hrunning : s.impl.running = true)
    (hnext : next = .monitorBus ∨ next = .lockBus ∧ ∃ message qq rest,
      s.impl.activeMessage = some message ∧ message.telegram.master.seq = qq :: rest) :
    ∃ s' evs, Listens env s [] s' ∧ s'.log = s.log ++ evs ∧ Quiet evs ∧ gotBytes evs = [] := by
  rcases hnext with rfl | ⟨rfl, message, qq, rest, hactive, hqq⟩
  · have hread : exec monitorBus ((World.start s.impl env).on []) =
        (.error .starved, (World.start s.impl env).on []) := rfl
    exact ⟨_, [], .of_starved hstate hrunning hread, rfl, quiet_nil, rfl⟩
  · let w : World := { impl := s.impl, env, events := [.wrote qq] }
    have hlock : exec lockBus ((World.start s.impl env).on []) = (.error .starved, w.on []) := by
      unfold lockBus
      simp only [exec_bind, exec_getImpl_on, hactive, exec_deref_some, Telegram.getMasterQQ_eq hqq,
        exec_liftRange_ok, exec_write_on, exec_read_nil]
      rfl
    exact ⟨_, [.wrote qq], .of_starved hstate hrunning hlock, rfl, by simp [Event.onWire], rfl⟩

/-- The passive side acknowledges the message. -/
theorem passive_receives (env : Env) {B : System} {m : Master} {stored : Sequence}
    (hstate : B.control = .loop .monitorBus) (hseq : B.impl.sequence.seq = [])
    (hrunning : B.impl.running = true) (hclose : B.impl.close = false)
    (haddr : m.zz = B.impl.slaveAddress) (hclear : Clear m.bytes m.crc)
    (ht : m.Text (reduceBytes m.frame) stored) (htype : m.type = .MS) (l : List Byte) :
    ∃ (B' : System) (seq : Sequence), B'.control = .loop .processMessage ∧
      B'.impl = { B.impl with sequence := seq } ∧ seq.reduce.seq = reduceBytes m.frame ∧
      B'.log = B.log ++ (m.frame.map .got ++ echo [seqAck]) ∧
      ∀ B'', Listens env B' l B'' → Listens env B (m.frame ++ seqAck :: l) B'' := by
  obtain ⟨rest, hrest⟩ : ∃ rest, m.frame = m.qq :: m.zz :: rest := ⟨_, rfl⟩
  have hdrop : m.frame.drop 2 = rest := by
    rw [hrest]
    rfl
  let w₁ : World := { impl := { B.impl with sequence := ⟨[m.qq], true⟩ }, env, events := [.got m.qq] }
  let w₂ : World := { impl := { B.impl with sequence := ⟨[m.qq, m.zz], true⟩ }, env, events := [.got m.zz] }
  let B₁ := B.next w₁ (.loop .monitorBus)
  let B₂ := B₁.next w₂ (.loop .receiveMessage)
  have hqq : m.qq ≠ seqSyn := fun h => not_reserved_of_isMaster m.source (.inl h)
  have hzz : m.zz ≠ seqSyn := fun h => not_reserved_of_isAddressValid m.target (.inl h)
  have hfirst : exec monitorBus ((World.start B.impl env).on (m.frame ++ seqAck :: l)) =
      (.ok .monitorBus, w₁.on (m.zz :: (rest ++ seqAck :: l))) := by
    rw [hrest]
    exact exec_monitorBus_first hseq hqq _
  have hseq₁ : B₁.impl.sequence = ⟨[m.qq], true⟩ := rfl
  have haddr₁ : Addressed B₁.impl m.zz := .inr (.inr haddr)
  have hsecond : exec monitorBus ((World.start B₁.impl env).on (m.zz :: (rest ++ seqAck :: l))) =
      (.ok .receiveMessage, w₂.on (rest ++ seqAck :: l)) :=
    exec_monitorBus_second hseq₁ hzz haddr₁ _
  have hseq₂ : B₂.impl.sequence = ⟨[m.qq, m.zz], true⟩ := rfl
  obtain ⟨seq, hreduce, hreceive⟩ := exec_receiveMessage_on env hseq₂ hclear ht htype l
  rw [hdrop] at hreceive
  let w₃ : World :=
    { impl := { B₂.impl with sequence := seq }
      env, events := rest.map .got ++ [.wrote seqAck, .got seqAck] }
  refine ⟨B₂.next w₃ (.loop .processMessage), seq, rfl, rfl, hreduce, ?_, fun B'' hlistens => ?_⟩
  · show B.log ++ w₁.events ++ w₂.events ++ w₃.events = _
    rw [hrest]
    simp [w₁, w₂, w₃, echo]
  · exact .of_exec hstate hrunning hfirst hclose (.of_exec rfl hrunning hsecond hclose
      (.of_exec rfl hrunning hreceive hclose hlistens))

/-- The passive side answers, and the bus becomes idle. -/
theorem passive_answers {B : System} {env : Env} {m : Master} {s : Slave} {stored storedSlave : Sequence}
    (hstate : B.control = .loop .processMessage) (hrunning : B.impl.running = true)
    (hclose : B.impl.close = false) (hprocessing : B.impl.processing = true)
    (hreaction : env.reaction = .response) (ht : m.Text B.impl.sequence.reduce.seq stored)
    (htype : m.type = .MS) (hs : s.Text env.response storedSlave) (hstored : storedSlave.seq = s.bytes) :
    ∃ (B' : System) (next : State) (evs : List Event), B'.control = .loop next ∧ B'.impl.running = true ∧
      (next = .monitorBus ∨ next = .lockBus ∧
        ∃ message ∈ B.impl.messageQueue, B'.impl.activeMessage = some message) ∧
      B'.log = B.log ++ evs ∧ ticks evs = ticks (echo s.frame ++ [Event.got seqAck, Event.got seqSyn]) ∧
      processedMessages evs = [stored.seq] ∧
      ∀ B'', Listens env B' [] B'' → Listens env B (s.frame ++ [seqAck, seqSyn]) B'' := by
  let passive : Message := ⟨0, answeredTelegram m stored s storedSlave, 0⟩
  obtain ⟨seq, hprocess⟩ := exec_processMessage_on hprocessing hreaction ht htype hs (s.frame ++ [seqAck, seqSyn])
  let impl₁ : EbusImpl := { B.impl with sequence := seq, passiveMessage := some passive }
  let w₁ : World := { impl := impl₁, env, events := [.processed stored.seq] }
  let w₂ : World :=
    { impl := resetImpl impl₁
      env, events := echo s.frame ++ [.got seqAck, .published stored.seq storedSlave.seq] ++
        resetEvents B.impl.activeMessage }
  let B₁ := B.next w₁ (.loop .sendResponse)
  let B₂ := B₁.next w₂ (.loop .monitorBus)
  have hsend : exec sendResponse ((World.start B₁.impl env).on (s.frame ++ [seqAck, seqSyn])) =
      (.ok .monitorBus, w₂.on [seqSyn]) := by
    have hpassive : B₁.impl.passiveMessage = some passive := rfl
    have hframe : passive.telegram.slave.seq ++ [passive.telegram.slaveCRC] = s.frame := by
      show storedSlave.seq ++ [s.crc] = _
      rw [hstored]
      rfl
    have hstream : s.frame ++ [seqAck, seqSyn] =
        passive.telegram.slave.seq ++ passive.telegram.slaveCRC :: seqAck :: [seqSyn] := by
      rw [← hframe, List.append_assoc]
      rfl
    rw [hstream, exec_sendResponse_on env hpassive [seqSyn], hframe]
    rfl
  have hempty : B₂.impl.sequence = {} := rfl
  obtain ⟨impl₃, next, hsyn, hclose₃, hrunning₃, hnext⟩ := exec_monitorBus_syn env hempty rfl []
  let w₃ : World := { impl := impl₃, env, events := [.got seqSyn] }
  refine ⟨B₂.next w₃ (.loop next), next, w₁.events ++ w₂.events ++ w₃.events, rfl, hrunning₃.trans hrunning,
    hnext, ?_, ?_, ?_, fun B'' hrest => ?_⟩
  · show B.log ++ w₁.events ++ w₂.events ++ w₃.events = _
    simp only [List.append_assoc]
  · simp [w₁, w₂, w₃, ticks, ticks_resetEvents]
  · have hquiet : processedMessages (echo s.frame) = [] := (quiet_echo _).processedMessages
    simp only [w₁, w₂, w₃, processedMessages_append, hquiet, processedMessages_resetEvents]
    rfl
  · exact .of_exec hstate hrunning hprocess hclose (.of_exec rfl hrunning hsend hclose
      (.of_exec rfl hrunning hsyn (hclose₃.trans hclose) hrest))

/-! ### The whole exchange -/

/-- Who writes what. -/
def transcript (m : Master) (s : Slave) : List (Role × Byte) :=
  m.frame.map (Prod.mk .active) ++ (seqAck :: s.frame).map (Prod.mk .passive) ++
    [seqAck, seqSyn].map (Prod.mk .active)

theorem transcript_bytes (m : Master) (s : Slave) : (transcript m s).map Prod.snd = exchangeBytes m s := by
  have hsnd : ∀ (role : Role) (l : List Byte), (l.map (Prod.mk role)).map Prod.snd = l := by
    intro role l
    rw [List.map_map]
    exact List.map_id l
  simp only [transcript, List.map_append, hsnd, exchangeBytes, List.append_assoc, List.cons_append]

theorem ticks_echo (l : List Byte) : ticks (echo l) = l.flatMap fun b => [.wrote b, .got b] := by
  induction l with
  | nil => rfl
  | cons b l ih => exact congrArg (fun l => .wrote b :: .got b :: l) ih

theorem view_active (m : Master) (s : Slave) : view .active (transcript m s) =
    ticks (echo m.frame ++ (seqAck :: s.frame).map .got ++ echo [seqAck, seqSyn]) := by
  have hother : Role.passive ≠ .active := nofun
  simp only [transcript, view_append, view_map_self, view_map_other hother, ticks_append, ticks_echo,
    ticks_map_got]

theorem view_passive (m : Master) (s : Slave) : view .passive (transcript m s) =
    ticks (m.frame.map .got ++ echo (seqAck :: s.frame) ++ [seqAck, seqSyn].map .got) := by
  have hother : Role.active ≠ .passive := nofun
  simp only [transcript, view_append, view_map_self, view_map_other hother, ticks_append, ticks_echo,
    ticks_map_got]

/-- A slave address other than the broadcast address is the address of a slave. -/
theorem Master.type_of_slaveAddress {m : Master} {address : Byte} (h : m.zz = slaveAddress address)
    (hbroad : m.zz ≠ seqBroad) : m.type = .MS := by
  have hslave : ∀ b, isMaster (slaveAddress b) = false := forall_byte (by decide +kernel)
  unfold Master.type typeOf
  rw [if_neg hbroad, h, hslave]
  rfl

/-- The numbers of the messages that have been completed are not those of the active one. -/
theorem InOrder.id_ne {as : List Action} {s : System} (h : InOrder as s) {message message' : Message}
    (hactive : s.impl.activeMessage = some message) (hm : message' ∈ s.completed) :
    message'.id ≠ message.id := by
  obtain ⟨served, hserved, hcores⟩ := h.order
  have hnodup := h.once
  rw [hserved, List.map_append] at hnodup
  have hids : served.map Message.id = (s.completed.reverse ++ [message]).map Message.id := by
    have hid : ∀ l : List Message, l.map Message.id = (l.map Message.core).map Message.id := by
      intro l
      rw [List.map_map]
      rfl
    rw [hid, hcores, ← hid, hactive]
    rfl
  have hserved' := hnodup.of_append_left
  rw [hids, List.map_append, List.map_cons, List.map_nil] at hserved'
  intro heq
  have hdisjoint := List.disjoint_of_nodup_append hserved'
  refine hdisjoint (List.mem_map.2 ⟨message', List.mem_reverse.2 hm, rfl⟩) ?_
  rw [heq]
  exact List.mem_singleton_self _

theorem System.returns_of_completed {s : System} {call : Call} {message : Message}
    (hcall : call ∈ s.calls) (hm : message ∈ s.completed) (hid : message.id = call.id)
    (hunique : ∀ message' ∈ s.completed, message'.id = call.id → message' = message) :
    s.Returns call message.state message.telegram.slave.seq := by
  constructor
  · exact ⟨message, _, if_pos ⟨hcall, hm, hid⟩⟩
  · intro message' s' hstep
    rw [System.step] at hstep
    split_ifs at hstep with hawake
    obtain rfl := hunique message' hawake.2.1 hawake.2.2
    obtain rfl := Option.some_inj.1 hstep
    rfl

section Meeting

variable {A B : System} {env : Env} {call : Call} {m : Master} {s : Slave}

theorem Meeting.type_eq (h : Meeting A B env call m s) (hbroad : m.zz ≠ seqBroad) : m.type = .MS := by
  obtain ⟨address, as, hrun⟩ := h.passive
  exact Master.type_of_slaveAddress (h.addressed.trans (sound_of_run hrun).ownSlave) hbroad

/-- The active message is the request of the call, and it has not failed. -/
theorem Meeting.requested (h : Meeting A B env call m s) : ∃ message, A.impl.activeMessage = some message ∧
    message.id = call.id ∧ message.state = 0 ∧ message.telegram.type = m.type ∧
    m.Text (A.impl.address :: call.request) message.telegram.master ∧ message.telegram.masterCRC = m.crc := by
  obtain ⟨address, as, hrun⟩ := h.active
  obtain ⟨hcall, message, hactive, hid⟩ := h.calling
  obtain ⟨stored, ht⟩ := h.request
  have hsound := sound_of_run hrun
  have hheld : message ∈ A.messages := mem_messages_of_held (by simp [EbusImpl.held, hactive])
  obtain ⟨m', ht', htype, hcrc⟩ := hsound.calls call hcall message hheld hid
  rw [← hsound.own] at ht'
  obtain ⟨rfl, rfl⟩ := ht.unique ht'
  have htrying := (trying_of_run hrun).active
  rw [h.locking] at htrying
  have hzero := (htrying.resolve_left (by simp)).resolve_left (by simp) message hactive
  exact ⟨message, hactive, hid, hzero, htype, ht', hcrc⟩

/-- When the request has been completed last, the call returns what it holds. -/
theorem Meeting.returns (h : Meeting A B env call m s) {A' : System} {message message' : Message}
    (hactive : A.impl.activeMessage = some message) (hcalls : A'.calls = A.calls)
    (hcompleted : A'.completed = message' :: A.completed) (hid : message.id = call.id)
    (hid' : message'.id = call.id) :
    A'.Returns call message'.state message'.telegram.slave.seq := by
  obtain ⟨address, as, hrun⟩ := h.active
  have hcall : call ∈ A'.calls := by
    rw [hcalls]
    exact h.calling.1
  have hmem : message' ∈ A'.completed := by
    rw [hcompleted]
    exact List.mem_cons_self
  refine System.returns_of_completed hcall hmem hid' fun message'' hm hid'' => ?_
  rw [hcompleted] at hm
  rcases List.mem_cons.1 hm with heq | hm
  · exact heq
  · exact absurd (hid''.trans hid.symm) ((inOrder_of_run hrun).id_ne hactive hm)

/-- The passive side follows the exchange, and its callback gets the message. -/
theorem Meeting.passive_listens (h : Meeting A B env call m s) {stored : Sequence} (htype : m.type = .MS)
    (hm : Clear m.bytes m.crc) (ht : m.Text (reduceBytes m.frame) stored) (hs : Clear s.bytes s.crc) :
    ∃ B' evs, Listens env B (exchangeBytes m s) B' ∧ B'.log = B.log ++ evs ∧
      processedMessages evs = [stored.seq] ∧
      ∃ more, Tick.gots more = [] ∧ ticks evs = view .passive (transcript m s) ++ more := by
  obtain ⟨storedSlave, hts⟩ := h.answer
  obtain ⟨address, as, hrun⟩ := h.passive
  obtain ⟨B₁, seq, hstate₁, himpl₁, hreduce, hlog₁, hrest₁⟩ := passive_receives env h.monitoring.1
    h.monitoring.2 h.operating'.1 h.operating'.2 h.addressed hm ht htype (s.frame ++ [seqAck, seqSyn])
  have hreceived : m.Text B₁.impl.sequence.reduce.seq stored := by
    rw [himpl₁, hreduce]
    exact ht
  obtain ⟨B₂, next, evs, hstate₂, hrunning₂, hnext, hlog₂, hticks, hprocessed, hrest₂⟩ :=
    passive_answers hstate₁ (by rw [himpl₁]; exact h.operating'.1) (by rw [himpl₁]; exact h.operating'.2)
      (by rw [himpl₁]; exact h.processing) h.reaction hreceived htype hts (hts.stored_of_plain hs.1)
  have hready : next = .monitorBus ∨ next = .lockBus ∧ ∃ message qq rest,
      B₂.impl.activeMessage = some message ∧ message.telegram.master.seq = qq :: rest := by
    refine hnext.imp_right fun hlock => ⟨hlock.1, ?_⟩
    obtain ⟨message, hqueue, hactive⟩ := hlock.2
    rw [himpl₁] at hqueue
    have hheld : message ∈ B.messages := mem_messages_of_held (List.mem_append_right _ hqueue)
    obtain ⟨request, hcarries⟩ := (sound_of_run hrun).carries message hheld
    obtain ⟨qq, rest, hqq⟩ := hcarries.seq
    exact ⟨message, qq, rest, hactive, hqq⟩
  obtain ⟨B₃, evs', hwait, hlog₃, hquiet, hgot⟩ := Listens.rest hstate₂ hrunning₂ hready
  have hquiet₁ : Quiet (m.frame.map .got ++ echo [seqAck]) := by simp
  refine ⟨B₃, m.frame.map .got ++ echo [seqAck] ++ evs ++ evs', hrest₁ _ (hrest₂ _ hwait), ?_, ?_,
    ticks evs', (gots_ticks evs').trans hgot, ?_⟩
  · rw [hlog₃, hlog₂, hlog₁]
    simp only [List.append_assoc]
  · rw [processedMessages_append, processedMessages_append, hquiet₁.processedMessages, hprocessed,
      hquiet.processedMessages]
    rfl
  · rw [view_passive]
    simp [hticks, echo, ticks]

end Meeting

/-- **The exchange is delivered**: the callback of the passive side is invoked once, with the message, and the call
on the active side returns zero and the answer of the callback, when both parts are clear, a message whose CRC is
the synchronization byte has data, and the slave address is not the broadcast address. -/
theorem delivered {A B : System} {env env' : Env} {call : Call} {m : Master} {s : Slave}
    (h : Meeting A B env' call m s) (hbroad : m.zz ≠ seqBroad) (hm : Clear m.bytes m.crc)
    (hdata : m.crc = seqSyn → m.data ≠ []) (hs : Clear s.bytes s.crc) :
    Delivers A B env env' call m s := by
  have htype : m.type = .MS := h.type_eq hbroad
  obtain ⟨message, hactive, hid, hzero, htype', ht, hcrc⟩ := h.requested
  obtain ⟨stored, hm', hstored⟩ := Master.text_of_clear hm hdata
  obtain ⟨received, hreceived, hresponse⟩ := Slave.text_of_clear hs
  obtain ⟨A', message', hlistens, hlog, hcalls, hcompleted, hid', hstate', hslave⟩ := active_listens env
    h.locking h.operating.1 h.operating.2 hactive rfl (ht.stored_of_plain hm.1) hcrc (htype'.trans htype) hs
    hreceived
  obtain ⟨B', evs, hlistens', hlog', hprocessed, more, hmore, hticks⟩ := h.passive_listens htype hm hm' hs
  have hviewed : Viewed (parties A B env env') (transcript m s) := by
    intro role
    rw [transcript_bytes]
    cases role with
    | active =>
      refine ⟨[], rfl, A', _, hlistens, hlog, ?_⟩
      rw [view_active]
      simp [finish, ticks]
    | passive => exact ⟨more, hmore, B', evs, hlistens', hlog', hticks.symm⟩
  have hreturns := h.returns hactive hcalls hcompleted hid (hid'.trans hid)
  rw [hstate', hzero, hslave, hresponse] at hreturns
  rw [hstored] at hprocessed
  have hcarried := carried_of_views hviewed
  rw [transcript_bytes] at hcarried
  refine ⟨exchangeBytes m s, hcarried, ⟨⟨B', evs, hlistens', hlog', hprocessed⟩, A', hlistens, hreturns⟩,
    fun l' hl' => ?_⟩
  have hcomparable := comparable_of_views hviewed hl'
  rwa [transcript_bytes] at hcomparable

/-! ### Samples -/

/-- A participant with the slave address `08` and a callback monitors the bus. -/
def monitorSlave : List Action := .registerProcess :: handlers [[0xaa]]

/-- The callback answers with `0142`. -/
def answering : Env := { reaction := .response, response := [0x01, 0x42] }

/-- The machines that the tests of the samples describe. -/
theorem meeting_of_execute {A B : System} {as as' : List Action} {address address' : Byte}
    {message : Message} {call : Call} {m : Master} {s : Slave}
    (hA : execute System.step (fun _ _ => true) (System.init address) as = some A)
    (hB : execute System.step (fun _ _ => true) (System.init address') as' = some B)
    (htest : (A.control, A.impl.running && !A.impl.close, A.calls, A.impl.activeMessage) =
      (.loop .lockBus, true, [call], some message))
    (htest' : (B.control, B.impl.running && !B.impl.close, B.impl.processing, B.impl.sequence) =
      (.loop .monitorBus, true, true, {}))
    (hid : message.id = call.id) (hzz : m.zz = slaveAddress address')
    (hm : ∃ stored, m.Text (address :: call.request) stored)
    (hs : ∃ stored, s.Text answering.response stored) : Meeting A B answering call m s := by
  simp only [Prod.mk.injEq, Bool.and_eq_true, Bool.not_eq_true'] at htest htest'
  obtain ⟨hlock, hoperating, hcalls, hactive⟩ := htest
  obtain ⟨hmonitor, hoperating', hprocessing, hseq⟩ := htest'
  have hrun : Run System.step (fun _ _ => True) (System.init address) as A :=
    run_of_execute (fun _ _ _ => trivial) hA
  have hrun' : Run System.step (fun _ _ => True) (System.init address') as' B :=
    run_of_execute (fun _ _ _ => trivial) hB
  exact {
    active := ⟨address, as, hrun⟩
    locking := hlock
    operating := hoperating
    calling := ⟨by rw [hcalls]; exact List.mem_singleton_self _, message, hactive, hid⟩
    request := by rwa [(sound_of_run hrun).own]
    passive := ⟨address', as', hrun'⟩
    monitoring := ⟨hmonitor, by rw [hseq]⟩
    operating' := hoperating'
    addressed := hzz.trans (sound_of_run hrun').ownSlave.symm
    processing := hprocessing
    reaction := rfl
    answer := hs }

/-- The passive side of the samples. -/
theorem execute_monitorSlave :
    ∃ B, execute System.step (fun _ _ => true) (System.init 0x03) monitorSlave = some B ∧
      (B.control, B.impl.running && !B.impl.close, B.impl.processing, B.impl.sequence) =
        (.loop .monitorBus, true, true, {}) := by
  have hB : (execute System.step (fun _ _ => true) (System.init 0x03) monitorSlave).map (fun B =>
      (B.control, B.impl.running && !B.impl.close, B.impl.processing, B.impl.sequence)) =
      some (.loop .monitorBus, true, true, {}) := by decide +kernel
  exact Option.map_eq_some_iff.1 hB

/-- The request `ff08b5050127` is delivered, and its call returns the answer. -/
theorem delivered_sample : ∃ A B,
    execute System.step (fun _ _ => true) (System.init 0xff) requestSlave = some A ∧
      execute System.step (fun _ _ => true) (System.init 0x03) monitorSlave = some B ∧
      Delivers A B {} answering ⟨1, [0x08, 0xb5, 0x05, 0x01, 0x27]⟩
        ⟨0xff, 0x08, 0xb5, 0x05, [0x27], by decide, by decide, by decide⟩ ⟨[0x42], by decide⟩ := by
  have hA : (execute System.step (fun _ _ => true) (System.init 0xff) requestSlave).map (fun A =>
      (A.control, A.impl.running && !A.impl.close, A.calls, A.impl.activeMessage)) =
      some (.loop .lockBus, true, [⟨1, [0x08, 0xb5, 0x05, 0x01, 0x27]⟩], some slaveMessage) := by
    decide +kernel
  obtain ⟨A, hA, htest⟩ := Option.map_eq_some_iff.1 hA
  obtain ⟨B, hB, htest'⟩ := execute_monitorSlave
  refine ⟨A, B, hA, hB, delivered (meeting_of_execute hA hB htest htest' rfl (by decide) ⟨_, .bare ?_⟩
    ⟨_, .bare ?_⟩) ?_ ?_ ?_ ?_⟩
  all_goals decide

/-- When the bus carries an exchange in which the callback gets another message, it does not deliver. -/
theorem not_delivers {A B B' : System} {env env' : Env} {call : Call} {m : Master} {s : Slave}
    {t : List (Role × Byte)} {evs : List Event} {message : List Byte}
    (hviewed : Viewed (parties A B env env') t) (hlistens : Listens env' B (t.map Prod.snd) B')
    (hlog : B'.log = B.log ++ evs) (hprocessed : processedMessages evs = [message])
    (hne : message ≠ m.bytes) : ¬ Delivers A B env env' call m s := by
  rintro ⟨l, hcarried, ⟨⟨B₁, evs₁, hlistens₁, hlog₁, hprocessed₁⟩, -⟩, -⟩
  rcases comparable_of_views hviewed hcarried with ⟨r, hr⟩ | ⟨r, hr⟩
  · rw [← hr] at hlistens
    obtain ⟨evs₂, hlog₂⟩ := hlistens₁.log_append hlistens
    rw [hlog, hlog₁, List.append_assoc] at hlog₂
    obtain rfl := List.append_cancel_left hlog₂
    rw [processedMessages_append, hprocessed₁] at hprocessed
    exact hne (List.cons.inj hprocessed).1.symm
  · rw [← hr] at hlistens₁
    obtain ⟨evs₂, hlog₂⟩ := hlistens.log_append hlistens₁
    rw [hlog, hlog₁, List.append_assoc] at hlog₂
    obtain rfl := List.append_cancel_left hlog₂
    rw [processedMessages_append, hprocessed] at hprocessed₁
    exact hne (List.cons.inj hprocessed₁).1

/-- What the machine does on the stream. -/
theorem heard_of_listen {env : Env} {fuel : Nat} {s s' : System} {l : List Byte} {evs : List Event}
    (h : listen env fuel s l = some s') (hevs : s'.log.drop s.log.length = evs) :
    Listens env s l s' ∧ s'.log = s.log ++ evs := by
  have hlistens := listens_of_listen h
  obtain ⟨evs', hlog, -⟩ := hlistens.log
  rw [hlog, List.drop_left] at hevs
  rw [← hevs]
  exact ⟨hlistens, hlog⟩

/-- A request with the data `aa`, which `transmit` accepts without the CRC. -/
def rawMaster : Master := .ofCheck 0xff 0x08 0xb5 0x05 [0xaa] (.refl true)

/-- The request is enqueued, and the bus is free. -/
def requestRaw : List Action :=
  [.setLockCounterMax 1] ++ handlers [[0xaa]] ++
    [.transmit [0x08, 0xb5, 0x05, 0x01, 0xaa], .enqueue ⟨1, bareTelegram rawMaster, 0⟩] ++
    handlers [[0xaa]]

/-- The data is written as it is, and the other side takes it and the CRC for one escaped byte. -/
def rawTranscript : List (Role × Byte) :=
  [0xff, 0x08, 0xb5, 0x05, 0x01, 0xaa, 0x09].map (Prod.mk .active) ++
    [0x00, 0x01, 0x42, 0xd9].map (Prod.mk .passive) ++ [0x00, 0xaa].map (Prod.mk .active)

/-- Not every exchange is delivered: of the request `ff08b50501aa` the callback gets `ff08b50501a9`. -/
theorem undelivered_sample : ¬ ∀ (A B : System) (env env' : Env) (call : Call) (m : Master) (s : Slave),
    Meeting A B env' call m s → Delivers A B env env' call m s := by
  intro h
  have hA : (execute System.step (fun _ _ => true) (System.init 0xff) requestRaw).map (fun A =>
      (A.control, A.impl.running && !A.impl.close, A.calls, A.impl.activeMessage)) =
      some (.loop .lockBus, true, [⟨1, [0x08, 0xb5, 0x05, 0x01, 0xaa]⟩],
        some ⟨1, bareTelegram rawMaster, 0⟩) := by
    decide +kernel
  have hlistenA : (execute System.step (fun _ _ => true) (System.init 0xff) requestRaw).map (fun A =>
      (listen {} 20 A (rawTranscript.map Prod.snd)).map fun A' => ticks (A'.log.drop A.log.length)) =
      some (some (view .active rawTranscript)) := by
    decide +kernel
  obtain ⟨A, hA, htest⟩ := Option.map_eq_some_iff.1 hA
  obtain ⟨B, hB, htest'⟩ := execute_monitorSlave
  have hlistenB : (execute System.step (fun _ _ => true) (System.init 0x03) monitorSlave).map (fun B =>
      (listen answering 20 B (rawTranscript.map Prod.snd)).map fun B' =>
        (ticks (B'.log.drop B.log.length), processedMessages (B'.log.drop B.log.length))) =
      some (some (view .passive rawTranscript, [[0xff, 0x08, 0xb5, 0x05, 0x01, 0xa9]])) := by
    decide +kernel
  rw [hA] at hlistenA
  rw [hB] at hlistenB
  obtain ⟨A', hlistenA, hticksA⟩ := Option.map_eq_some_iff.1 (Option.some_inj.1 hlistenA)
  obtain ⟨B', hlistenB, htestB⟩ := Option.map_eq_some_iff.1 (Option.some_inj.1 hlistenB)
  obtain ⟨hticksB, hprocessed⟩ := Prod.mk.inj htestB
  obtain ⟨hlistensA, hlogA⟩ := heard_of_listen hlistenA rfl
  obtain ⟨hlistensB, hlogB⟩ := heard_of_listen hlistenB rfl
  have hviewed : Viewed (parties A B {} answering) rawTranscript := by
    intro role
    refine ⟨[], rfl, ?_⟩
    rw [List.append_nil]
    cases role with
    | active => exact ⟨A', _, hlistensA, hlogA, hticksA.symm⟩
    | passive => exact ⟨B', _, hlistensB, hlogB, hticksB.symm⟩
  have hmeeting : Meeting A B answering ⟨1, [0x08, 0xb5, 0x05, 0x01, 0xaa]⟩ rawMaster
      ⟨[0x42], by decide⟩ :=
    meeting_of_execute hA hB htest htest' rfl (by decide) ⟨_, .bare (by decide)⟩ ⟨_, .bare (by decide)⟩
  exact not_delivers hviewed hlistensB hlogB hprocessed (by decide) (h A B {} answering _ _ _ hmeeting)

end EBusFsm

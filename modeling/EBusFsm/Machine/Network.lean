import EBusFsm.Machine.Rounds

/-!
# Agreement on the network

Any number of machines on one bus: `a` has a request of a call of `transmit` and is about to arbitrate, and all
the others monitor an idle bus. The message is for all of them, for another master, or for a slave that answers.
`agreed` says that the bus carries the whole exchange and nothing else first, and that behind it all participants
have published the same pair, once each: the one that sent the message, the one that it is for, and every
participant that only listened.

The bytes of the parts and their CRC are assumed to need no escape, and a slave that answers holds no message of
its own. What goes wrong otherwise is the subject of the modules on the wire and on the reception. The telegram of
the answer is granted its life.
-/

namespace EBusFsm

open Prog

variable {ι : Type}

/-! ### The property -/

/-- The pairs that were published. -/
def publishedPairs (evs : List Event) : List (List Byte × List Byte) :=
  evs.filterMap fun e => match e with | .published message response => some (message, response) | _ => none

/-- What the call returns, and what is published as the response. -/
def answered (m : Master) (s : Slave) : List Byte := if m.type = .MS then s.bytes else []

/-- The thread is about to arbitrate for the request of `call`, which is the message `m`. -/
structure Requests (s : System) (call : Call) (m : Master) : Prop where
  reachable : ∃ address as, Run System.step (fun _ _ => True) (System.init address) as s
  locking : s.control = .loop .lockBus
  operating : s.impl.running = true ∧ s.impl.close = false
  calling : call ∈ s.calls ∧ ∃ message, s.impl.activeMessage = some message ∧ message.id = call.id
  request : ∃ stored, m.Text (s.impl.address :: call.request) stored

/-- The machine monitors an idle bus. It may hold messages of its own. -/
structure Monitoring (s : System) : Prop where
  reachable : ∃ address as, Run System.step (fun _ _ => True) (System.init address) as s
  monitoring : s.control = .loop .monitorBus
  idle : s.impl.sequence.seq = []
  operating : s.impl.running = true ∧ s.impl.close = false

/-- The callback of the machine answers with the part `s`, and the machine holds no active message. -/
structure Answers (t : System) (env : Env) (s : Slave) : Prop where
  processing : t.impl.processing = true
  reaction : env.reaction = .response
  answer : ∃ stored, s.Text env.response stored
  free : t.impl.activeMessage = none

/-- `a` is about to send `m`, and the others monitor an idle bus. A message that is not for all is for `b`, and if
`b` is a slave, it answers with `s`. -/
structure Network (S : ι → System) (env : ι → Env) (a b : ι) (call : Call) (m : Master) (s : Slave) : Prop where
  sender : Requests (S a) call m
  others : ∀ i, i ≠ a → Monitoring (S i)
  addressed : m.type ≠ .BC → b ≠ a ∧ ∀ i, i ≠ a → (Addressed (S i).impl m.zz ↔ i = b)
  answering : m.type = .MS → Answers (S b) (env b) s

/-- The callback of the machine is to get the message. -/
def Processes (S : ι → System) (a : ι) (m : Master) (i : ι) : Prop :=
  i ≠ a ∧ Addressed (S i).impl m.zz ∧ (S i).impl.processing = true

@[simp] theorem publishedPairs_append (l r : List Event) :
    publishedPairs (l ++ r) = publishedPairs l ++ publishedPairs r := List.filterMap_append

@[simp] theorem publishedPairs_nil : publishedPairs [] = [] := rfl

@[simp] theorem publishedPairs_published (message response : List Byte) (evs : List Event) :
    publishedPairs (.published message response :: evs) = (message, response) :: publishedPairs evs := rfl

@[simp] theorem publishedPairs_got (b : Byte) (evs : List Event) :
    publishedPairs (.got b :: evs) = publishedPairs evs := rfl

@[simp] theorem publishedPairs_wrote (b : Byte) (evs : List Event) :
    publishedPairs (.wrote b :: evs) = publishedPairs evs := rfl

@[simp] theorem publishedPairs_notified (message : Message) (evs : List Event) :
    publishedPairs (.notified message :: evs) = publishedPairs evs := rfl

@[simp] theorem publishedPairs_processed (message : List Byte) (evs : List Event) :
    publishedPairs (.processed message :: evs) = publishedPairs evs := rfl

theorem Quiet.publishedPairs {evs : List Event} (h : Quiet evs) : publishedPairs evs = [] := by
  unfold EBusFsm.publishedPairs
  rw [List.filterMap_eq_nil_iff]
  intro e he
  have hwire := h e he
  cases e <;> first | rfl | exact nomatch hwire

@[simp] theorem publishedPairs_map_got (l : List Byte) : publishedPairs (l.map .got) = [] :=
  (quiet_map_got l).publishedPairs

@[simp] theorem publishedPairs_echo (l : List Byte) : publishedPairs (echo l) = [] :=
  (quiet_echo l).publishedPairs

@[simp] theorem publishedPairs_processEvents (impl : EbusImpl) (stored : Sequence) :
    publishedPairs (processEvents impl stored) = [] := by
  unfold processEvents
  split_ifs <;> rfl

@[simp] theorem processedMessages_processed (message : List Byte) (evs : List Event) :
    processedMessages (.processed message :: evs) = message :: processedMessages evs := rfl

@[simp] theorem processedMessages_wrote (b : Byte) (evs : List Event) :
    processedMessages (.wrote b :: evs) = processedMessages evs := rfl

@[simp] theorem processedMessages_got (b : Byte) (evs : List Event) :
    processedMessages (.got b :: evs) = processedMessages evs := rfl

@[simp] theorem processedMessages_map_got (l : List Byte) : processedMessages (l.map .got) = [] :=
  (quiet_map_got l).processedMessages

@[simp] theorem processedMessages_echo (l : List Byte) : processedMessages (echo l) = [] :=
  (quiet_echo l).processedMessages

@[simp] theorem processedMessages_published (message response : List Byte) (evs : List Event) :
    processedMessages (.published message response :: evs) = processedMessages evs := rfl

@[simp] theorem processedMessages_nil : processedMessages [] = [] := rfl

theorem processedMessages_processEvents (impl : EbusImpl) (stored : Sequence) :
    processedMessages (processEvents impl stored) = if impl.processing then [stored.seq] else [] := by
  unfold processEvents
  split_ifs <;> rfl

@[simp] theorem ticks_processEvents (impl : EbusImpl) (stored : Sequence) :
    ticks (processEvents impl stored) = [] := by
  unfold processEvents
  split_ifs <;> rfl

/-! ### A message that was not sent yet has no response -/

/-- The active message has no response, or it is about to be completed. -/
def Unreplied (impl : EbusImpl) (state : State) : Prop :=
  state = .freeBus ∨ state = .idleSystem ∨
    ∀ message, impl.activeMessage = some message → message.telegram.slave = {}

theorem Unreplied.of_none {impl : EbusImpl} {state : State} (h : impl.activeMessage = none) :
    Unreplied impl state := by
  refine .inr (.inr fun message hactive => ?_)
  rw [h] at hactive
  exact nomatch hactive

theorem Handled.unreplied {impl impl' : EbusImpl} {env : Env} {state : State} {result : Except Stop State}
    {evs : List Event} (h : Handled impl env state result impl' evs) (hs : Unreplied impl state)
    (hqueue : ∀ message ∈ impl.messageQueue, message.telegram.slave = {}) :
    (Control.after result).Holds (Unreplied impl') := by
  have hkeep : ∀ {impl' : EbusImpl} {next : State}, impl'.activeMessage = impl.activeMessage →
      state ≠ .freeBus → state ≠ .idleSystem → Unreplied impl' next := by
    intro impl' next hactive hfree hidle
    refine .inr (.inr fun message hm => ?_)
    exact (hs.resolve_left hfree).resolve_left hidle message (hactive.symm.trans hm)
  cases h with
  | idle hresult =>
    rcases hresult with ⟨-, rfl⟩ | ⟨-, rfl⟩
    · exact .of_none rfl
    · exact .of_none rfl
  | opened | oversize | responded | responseOversize | freed | unopened | device => exact .of_none rfl
  | collected | addressed | received | refused | answer | drop | won | lost =>
    exact hkeep rfl (by decide) (by decide)
  | broadcast | unacked | accepted | rejected => exact .inl rfl
  | synced h hdequeued hevs hseq =>
    show Unreplied _ _
    cases hdequeued with
    | keep => exact hkeep rfl (by decide) (by decide)
    | take message queue hnone hq =>
      refine .inr (.inr fun message' hm => ?_)
      obtain rfl := Option.some_inj.1 hm
      exact hqueue message (by rw [hq]; exact List.mem_cons_self)
  | @acked message evs w hactive =>
    show Unreplied _ _
    refine .inr (.inr fun message' hm => ?_)
    obtain rfl := Option.some_inj.1 hm
    exact (hs.resolve_left (by decide)).resolve_left (by decide) message hactive
  | oversizeAlone | misread | hung => trivial

/-- No message has a response before it is about to be completed. -/
structure Asking (s : System) : Prop where
  waiting : ∀ message ∈ s.entering ++ s.impl.messageQueue, message.telegram.slave = {}
  active : s.control.Holds (Unreplied s.impl)

theorem asking_step {address : Byte} {s s' : System} {a : Action} (hsound : Sound address s) (h : Asking s)
    (hstep : s.step a = some s') : Asking s' := by
  obtain ⟨hwaiting, hactive⟩ := h
  cases stepped hsound.control hstep with
  | setting => exact ⟨hwaiting, hactive⟩
  | failed | awoken => exact ⟨hwaiting, hactive⟩
  | called ht htel =>
    refine ⟨fun message hm => ?_, hactive⟩
    rcases List.mem_cons.1 hm with rfl | hm
    · rw [htel]
      rfl
    · exact hwaiting message hm
  | @enqueued message hmessage =>
    refine ⟨fun message' hm => hwaiting message' ?_, hactive⟩
    rcases List.mem_append.1 hm with hm | hm
    · exact List.mem_append_left _ (List.mem_of_mem_erase hm)
    rcases List.mem_append.1 hm with hm | hm
    · exact List.mem_append_right _ hm
    · obtain rfl := List.mem_singleton.1 hm
      exact List.mem_append_left _ hmessage
  | stopped => exact ⟨hwaiting, trivial⟩
  | @thread _ _ _ impl' evs hstate hh =>
    rw [hstate] at hactive
    have hqueue : ∀ message ∈ impl'.messageQueue, message ∈ s.impl.messageQueue := by
      intro message hm
      have hmoved := hh.moved
      generalize notifiedMessages evs = notified at hmoved
      cases hmoved with
      | kept hqueue => rwa [hqueue] at hm
      | taken _ hqueue =>
        rw [hqueue]
        exact List.mem_cons_of_mem _ hm
      | finished hqueue => rwa [hqueue] at hm
    refine ⟨fun message hm => hwaiting message ?_, hh.unreplied hactive fun message hm =>
      hwaiting message (List.mem_append_right _ hm)⟩
    exact List.mem_append.2 ((List.mem_append.1 hm).imp_right (hqueue message))
  | @check state hstate =>
    rw [hstate] at hactive
    refine ⟨hwaiting, ?_⟩
    show Unreplied s.impl (if s.impl.close then .idleSystem else state)
    split_ifs
    · exact .inr (.inl rfl)
    · exact hactive
  | wake hwait =>
    rw [hwait] at hactive
    exact ⟨hwaiting, hactive⟩

theorem asking_of_run {address : Byte} {guard : System → Action → Prop} {as : List Action} {s : System}
    (hrun : Run System.step guard (System.init address) as s) : Asking s :=
  (hrun.invariant (I := fun s => Sound address s ∧ Asking s)
    (fun _ _ _ h _ hstep => ⟨h.1.step hstep, asking_step h.1 h.2 hstep⟩)
    ⟨sound_init address, by simp [System.init, initImpl], .of_none rfl⟩).2

/-! ### The transcript -/

/-- Who writes what. -/
def exchange (a b : ι) (m : Master) (s : Slave) : List (ι × Byte) :=
  m.frame.map (Prod.mk a) ++
    (match m.type with
      | .MM => [(b, seqAck)]
      | .MS => (seqAck :: s.frame).map (Prod.mk b) ++ [(a, seqAck)]
      | _ => []) ++ [(a, seqSyn)]

/-- What stands on the bus before the synchronization byte. -/
def exchangeText (m : Master) (s : Slave) : List Byte :=
  m.frame ++ match m.type with
    | .MM => [seqAck]
    | .MS => seqAck :: (s.frame ++ [seqAck])
    | _ => []

theorem exchange_bytes (a b : ι) (m : Master) (s : Slave) :
    (exchange a b m s).map Prod.snd = exchangeText m s ++ [seqSyn] := by
  unfold exchange exchangeText
  rcases m.type_cases with htype | htype | htype <;> simp [htype, Function.comp_def]

theorem encoded_exchangeText (m : Master) (s : Slave) :
    Encoded (exchangeText m s) m (if m.type = .MS then some s else none) := by
  unfold exchangeText
  rcases m.type_cases with htype | htype | htype
  · simp only [htype, List.append_nil, reduceCtorEq, if_false]
    exact .broadcast m htype
  · simp only [htype, reduceCtorEq, if_false]
    exact .toMaster m htype .once
  · simp only [htype, if_true]
    have hsent := Encoded.toSlave m s htype .once .once
    rwa [List.append_assoc, List.singleton_append] at hsent

theorem plain_exchangeText {m : Master} {s : Slave} (hm : Plain m.frame) (hs : m.type = .MS → Plain s.frame) :
    Plain (exchangeText m s) := by
  have hack : Plain [seqAck] := by decide
  unfold exchangeText
  rcases m.type_cases with htype | htype | htype
  · simpa [htype] using hm
  · simp only [htype, plain_append]
    exact ⟨hm, hack⟩
  · simp only [htype, plain_append, plain_cons]
    exact ⟨hm, by decide, hs htype, by decide, plain_nil⟩

section View

variable [DecidableEq ι] {a b i : ι}

/-- What the participant that is addressed sees. -/
theorem view_target (h : a ≠ b) (m : Master) (s : Slave) : view b (exchange a b m s) =
    m.frame.map .got ++ (match m.type with
      | .MM => ticks (echo [seqAck])
      | .MS => ticks (echo (seqAck :: s.frame)) ++ [.got seqAck]
      | _ => []) ++ [.got seqSyn] := by
  unfold exchange
  rw [view_append, view_append, view_map_other h]
  rcases m.type_cases with htype | htype | htype
  · simp [htype, view, h]
  · simp [htype, view, ticks, echo, h]
  · rw [htype]
    simp only [view_append, view_map_self, ticks_echo]
    simp [view, h]

/-- What all others see. -/
theorem view_bystander {m : Master} (ha : a ≠ i) (hb : m.type ≠ .BC → b ≠ i) (s : Slave) :
    view i (exchange a b m s) = (exchangeText m s ++ [seqSyn]).map .got := by
  rw [← exchange_bytes a b]
  refine view_of_silent fun p hp => ?_
  unfold exchange at hp
  rcases List.mem_append.1 hp with hp | hp
  · rcases List.mem_append.1 hp with hp | hp
    · obtain ⟨byte, -, rfl⟩ := List.mem_map.1 hp
      exact ha
    · rcases m.type_cases with htype | htype | htype
      · rw [htype] at hp
        exact absurd hp List.not_mem_nil
      · rw [htype] at hp
        obtain rfl := List.mem_singleton.1 hp
        exact hb (by rw [htype]; decide)
      · rw [htype] at hp
        rcases List.mem_append.1 hp with hp | hp
        · obtain ⟨byte, -, rfl⟩ := List.mem_map.1 hp
          exact hb (by rw [htype]; decide)
        · obtain rfl := List.mem_singleton.1 hp
          exact ha
  · obtain rfl := List.mem_singleton.1 hp
    exact ha

end View

/-! ### The sender -/

/-- The machine waits for the next byte. -/
theorem Hears.wait {env : Env} {s : System} {P : List Event → System → Prop}
    (hstate : s.control = .loop .monitorBus) (hrunning : s.impl.running = true)
    (hP : P [] (s.next (World.start s.impl env) .hung)) : Hears env s [] P :=
  ⟨_, [], .of_starved hstate hrunning rfl, rfl, hP⟩

section Sender

variable {A : System} {call : Call} {m : Master} {s : Slave}

/-- The active message is the request of the call, and nothing has been made of it yet. -/
theorem Requests.active (h : Requests A call m) : ∃ message, A.impl.activeMessage = some message ∧
    message.id = call.id ∧ message.state = 0 ∧ message.telegram.type = m.type ∧
    m.Text (A.impl.address :: call.request) message.telegram.master ∧
    message.telegram.masterCRC = m.crc ∧ message.telegram.slave = {} := by
  obtain ⟨address, as, hrun⟩ := h.reachable
  obtain ⟨hcall, message, hactive, hid⟩ := h.calling
  obtain ⟨stored, ht⟩ := h.request
  have hsound := sound_of_run hrun
  have hheld : message ∈ A.messages := mem_messages_of_held (by simp [EbusImpl.held, hactive])
  obtain ⟨m', ht', htype, hcrc⟩ := hsound.calls call hcall message hheld hid
  rw [← hsound.own] at ht'
  obtain ⟨rfl, rfl⟩ := ht.unique ht'
  have htrying := (trying_of_run hrun).active
  have hasking := (asking_of_run hrun).active
  rw [h.locking] at htrying hasking
  have hzero := (htrying.resolve_left (by decide)).resolve_left (by decide) message hactive
  have hslave := (hasking.resolve_left (by decide)).resolve_left (by decide) message hactive
  exact ⟨message, hactive, hid, hzero, htype, ht', hcrc, hslave⟩

/-- When the request has been completed last, the call returns what it holds. -/
theorem Requests.returns (h : Requests A call m) {A' : System} {message message' : Message}
    (hactive : A.impl.activeMessage = some message) (hid : message.id = call.id)
    (hcalls : A'.calls = A.calls) (hcompleted : A'.completed = message' :: A.completed)
    (hid' : message'.id = message.id) : A'.Returns call message'.state message'.telegram.slave.seq := by
  obtain ⟨address, as, hrun⟩ := h.reachable
  refine System.returns_of_completed (by rw [hcalls]; exact h.calling.1)
    (by rw [hcompleted]; exact List.mem_cons_self) (hid'.trans hid) fun message'' hm hid'' => ?_
  rw [hcompleted] at hm
  rcases List.mem_cons.1 hm with heq | hm
  · exact heq
  · exact absurd (hid''.trans hid.symm) ((inOrder_of_run hrun).id_ne hactive hm)

/-- The last round of the sender: the message is completed. -/
theorem hears_freeBus (env : Env) (message : Message) {A : System} (hstate : A.control = .loop .freeBus)
    (hrunning : A.impl.running = true) (hclose : A.impl.close = false)
    (hactive : A.impl.activeMessage = some message) {P : List Event → System → Prop}
    (hP : ∀ A' : System, A'.calls = A.calls → A'.completed = message :: A.completed →
      P (echo [seqSyn] ++ finish message) A') : Hears env A [seqSyn] P := by
  refine .round hstate hrunning (exec_freeBus_on []) hclose (.wait rfl hrunning ?_)
  rw [hactive]
  exact hP _ rfl rfl

/-- A round that notifies nobody completes nothing. -/
theorem Quiet.completed {evs : List Event} (h : Quiet evs) (l : List Message) :
    EBusFsm.notifiedMessages evs ++ l = l := by
  rw [h.notifiedMessages]
  rfl

/-- What the other side of an exchange does, as the sender reads it. -/
def replyEvents (m : Master) (s : Slave) : List Event :=
  match m.type with
  | .MM => [.got seqAck]
  | .MS => .got seqAck :: s.frame.map .got ++ echo [seqAck]
  | _ => []

theorem quiet_replyEvents (m : Master) (s : Slave) : Quiet (replyEvents m s) := by
  unfold replyEvents
  rcases m.type_cases with htype | htype | htype <;> simp [htype, Event.onWire]

/-- What the sender leaves in the log. -/
def senderEvents (m : Master) (s : Slave) (message : Message) : List Event :=
  echo m.frame ++ (replyEvents m s ++ (echo [seqSyn] ++ finish message))

theorem ticks_senderEvents (m : Master) (s : Slave) (message : Message) :
    ticks (senderEvents m s message) = ticks (echo m.frame) ++ (match m.type with
      | .MM => [.got seqAck]
      | .MS => (seqAck :: s.frame).map .got ++ ticks (echo [seqAck])
      | _ => []) ++ ticks (echo [seqSyn]) := by
  unfold senderEvents replyEvents
  rcases m.type_cases with htype | htype | htype <;> simp [htype, finish, ticks]

theorem publishedPairs_senderEvents (m : Master) (s : Slave) (message : Message) :
    publishedPairs (senderEvents m s message) =
      [(message.telegram.master.seq, message.telegram.slave.seq)] := by
  unfold senderEvents
  rw [publishedPairs_append, publishedPairs_echo, publishedPairs_append, (quiet_replyEvents m s).publishedPairs]
  rfl

theorem processedMessages_senderEvents (m : Master) (s : Slave) (message : Message) :
    processedMessages (senderEvents m s message) = [] := by
  unfold senderEvents
  rw [processedMessages_append, processedMessages_echo, processedMessages_append,
    (quiet_replyEvents m s).processedMessages]
  rfl

/-- What the sender does behind the arbitration. -/
theorem hears_sendMessage (env : Env) {A : System} {m : Master} {s : Slave} {message : Message}
    {rest : List Byte} (hstate : A.control = .loop .sendMessage) (hrunning : A.impl.running = true)
    (hclose : A.impl.close = false) (hactive : A.impl.activeMessage = some message)
    (hseq : message.telegram.master.seq = m.qq :: rest) (htype : message.telegram.type = m.type)
    (hslave : message.telegram.slave = {}) (hs : m.type = .MS → Plain s.frame)
    {P : List Event → System → Prop}
    (hP : ∀ (A' : System) (message' : Message), A'.calls = A.calls →
      A'.completed = message' :: A.completed → message'.id = message.id → message'.state = message.state →
      message'.telegram.master = message.telegram.master → message'.telegram.slave.seq = answered m s →
      P (echo (rest ++ [message.telegram.masterCRC]) ++
        (replyEvents m s ++ (echo [seqSyn] ++ finish message'))) A') :
    Hears env A (rest ++ message.telegram.masterCRC :: ((match m.type with
        | .MM => [seqAck]
        | .MS => seqAck :: (s.frame ++ [seqAck])
        | _ => []) ++ [seqSyn])) P := by
  rcases m.type_cases with hm | hm | hm
  · rw [hm] at htype
    simp only [hm, replyEvents] at hP ⊢
    refine .round hstate hrunning (exec_sendMessage_broadcast hactive hseq htype [seqSyn]) hclose ?_
    refine hears_freeBus env message rfl ?_ ?_ ?_ fun A' hcalls hcompleted => ?_
    · exact hrunning
    · exact hclose
    · exact hactive
    refine hP A' message hcalls (hcompleted.trans ?_) rfl rfl rfl ?_
    · exact congrArg (message :: ·) ((quiet_echo _).completed _)
    · rw [hslave, answered, if_neg (by rw [hm]; decide)]
  · rw [hm] at htype
    simp only [hm, replyEvents] at hP ⊢
    refine .round hstate hrunning (exec_sendMessage_toMaster hactive hseq htype [seqSyn]) hclose ?_
    refine hears_freeBus env _ rfl ?_ ?_ rfl fun A' hcalls hcompleted => ?_
    · exact hrunning
    · exact hclose
    have hquiet : Quiet (echo (rest ++ [message.telegram.masterCRC]) ++ [Event.got seqAck]) := by
      simp [Event.onWire]
    have hdone := hP A' _ hcalls (hcompleted.trans (congrArg (_ :: ·) (hquiet.completed _))) rfl rfl rfl (by
      show message.telegram.slave.seq = _
      rw [hslave, answered, if_neg (by rw [hm]; decide)])
    simpa only [List.append_assoc] using hdone
  · rw [hm] at htype
    simp only [hm, replyEvents] at hP ⊢
    have hclear : Clear s.bytes s.crc := by
      have hplain := hs hm
      rw [Slave.frame, plain_append, plain_cons] at hplain
      exact ⟨hplain.1, hplain.2.1.2⟩
    obtain ⟨stored, ht, hstored⟩ := Slave.text_of_clear hclear
    rw [List.cons_append, List.append_assoc, List.singleton_append]
    refine .round hstate hrunning (exec_sendMessage_on hactive hseq htype _) hclose ?_
    refine .round rfl ?_ (exec_receiveResponse_on rfl hclear ht [seqSyn]) ?_ ?_
    · exact hrunning
    · exact hclose
    refine hears_freeBus env _ rfl ?_ ?_ rfl fun A' hcalls hcompleted => ?_
    · exact hrunning
    · exact hclose
    have hquiet : Quiet (echo (rest ++ [message.telegram.masterCRC]) ++ [Event.got seqAck]) := by
      simp [Event.onWire]
    have hquiet' : Quiet (s.frame.map Event.got ++ [.wrote seqAck, .got seqAck]) := by
      simp [Event.onWire]
    have hdone := hP A' _ hcalls (hcompleted.trans (congrArg (_ :: ·)
      ((hquiet'.completed _).trans (hquiet.completed _)))) rfl rfl rfl (by
        show stored.seq = _
        rw [hstored, answered, if_pos hm])
    simpa [echo] using hdone

/-- The sender takes part in the whole exchange. -/
theorem Requests.hears (h : Requests A call m) (env : Env) (hm : Plain m.frame)
    (hs : m.type = .MS → Plain s.frame) : Hears env A (exchangeText m s ++ [seqSyn]) fun evs A' =>
      ticks evs = ticks (echo m.frame) ++ (match m.type with
        | .MM => [.got seqAck]
        | .MS => (seqAck :: s.frame).map .got ++ ticks (echo [seqAck])
        | _ => []) ++ ticks (echo [seqSyn]) ∧
      publishedPairs evs = [(m.bytes, answered m s)] ∧ processedMessages evs = [] ∧
      A'.Returns call 0 (answered m s) := by
  obtain ⟨message, hactive, hid, hzero, htype, ht, hcrc, hslave⟩ := h.active
  have hplain : Plain m.bytes := by
    rw [Master.frame, plain_append] at hm
    exact hm.1
  have hseq : message.telegram.master.seq = m.bytes := ht.stored_of_plain hplain
  obtain ⟨rest, hrest⟩ : ∃ rest, m.bytes = m.qq :: rest := ⟨_, rfl⟩
  have hframe : m.frame = m.qq :: (rest ++ [m.crc]) := by
    rw [Master.frame, hrest]
    rfl
  have htext : exchangeText m s ++ [seqSyn] =
      m.qq :: (rest ++ message.telegram.masterCRC :: ((match m.type with
        | .MM => [seqAck]
        | .MS => seqAck :: (s.frame ++ [seqAck])
        | _ => []) ++ [seqSyn])) := by
    rw [exchangeText, hframe, hcrc]
    simp
  rw [htext]
  refine .round h.locking h.operating.1 (exec_lockBus_on hactive (hseq.trans hrest) _) h.operating.2 ?_
  refine hears_sendMessage env rfl ?_ ?_ ?_ (hseq.trans hrest) htype hslave hs
    fun A' message' hcalls hcompleted hid' hstate' hmaster hanswer => ?_
  · exact h.operating.1
  · exact h.operating.2
  · exact hactive
  have hreturns := h.returns hactive hid hcalls hcompleted hid'
  rw [hstate', hzero, hanswer] at hreturns
  have hevs : [Event.wrote m.qq, Event.got m.qq] ++ (echo (rest ++ [message.telegram.masterCRC]) ++
      (replyEvents m s ++ (echo [seqSyn] ++ finish message'))) = senderEvents m s message' := by
    rw [senderEvents, hframe, hcrc]
    rfl
  show ticks ([Event.wrote m.qq, Event.got m.qq] ++ _) = _ ∧
    publishedPairs ([Event.wrote m.qq, Event.got m.qq] ++ _) = _ ∧
    processedMessages ([Event.wrote m.qq, Event.got m.qq] ++ _) = _ ∧ _
  rw [hevs]
  refine ⟨ticks_senderEvents m s message', ?_, processedMessages_senderEvents m s message', hreturns⟩
  rw [publishedPairs_senderEvents, hmaster, hseq, hanswer]

end Sender

/-! ### The others -/

/-- What a participant leaves in the log: what it sees of the exchange, the pair, and the messages that its
callback got. It may have written the first byte of a message of its own behind the exchange. -/
structure Attends (seen : List (Tick Byte)) (pair : List Byte × List Byte) (messages : List (List Byte))
    (evs : List Event) : Prop where
  wire : ∃ more, Tick.gots more = [] ∧ ticks evs = seen ++ more
  published : publishedPairs evs = [pair]
  processed : processedMessages evs = messages

/-- Behind the last synchronization byte nothing is published or processed. -/
theorem Attends.of_rest {seen : List (Tick Byte)} {pair : List Byte × List Byte} {messages : List (List Byte)}
    {evs evs' : List Event} (hseen : ticks evs = seen) (hpublished : publishedPairs evs = [pair])
    (hprocessed : processedMessages evs = messages) (hquiet : Quiet evs') (hgot : gotBytes evs' = []) :
    Attends seen pair messages (evs ++ evs') where
  wire := ⟨ticks evs', (gots_ticks evs').trans hgot, by rw [ticks_append, hseen]⟩
  published := by rw [publishedPairs_append, hpublished, hquiet.publishedPairs, List.append_nil]
  processed := by rw [processedMessages_append, hprocessed, hquiet.processedMessages, List.append_nil]

section Others

variable {B : System} {m : Master} {s : Slave}

/-- The telegram that the monitor decodes holds the two parts. -/
theorem decoded_exchangeText (hm : Plain m.frame) (hs : m.type = .MS → Plain s.frame) :
    ∃ tel : Telegram, Telegram.ofSequence ⟨exchangeText m s, true⟩ =
        .ok (tel, Sequence.reduce ⟨exchangeText m s, true⟩) ∧
      decodedEvents tel = [.published m.bytes (answered m s)] := by
  obtain ⟨tel, hrun, -, haccept⟩ := ({} : Telegram).parse_spec ⟨exchangeText m s, true⟩
  have hplain := plain_exchangeText hm hs
  have hreduce : (Sequence.reduce ⟨exchangeText m s, true⟩).seq = exchangeText m s := by
    rw [Sequence.reduce_extended, reduceBytes_of_plain hplain]
  obtain ⟨hvalid, hd⟩ := haccept m _ (by rw [hreduce]; exact accepted_of_encoded (encoded_exchangeText m s))
  refine ⟨tel, hrun, ?_⟩
  have hmaster : tel.master.seq = m.bytes := by
    rw [Master.frame, plain_append] at hm
    rw [hd.master, (extendBytes_eq_self_iff _).2 hm.1]
  have hslave : tel.slave.seq = answered m s := by
    unfold answered
    by_cases htype : m.type = .MS
    · have hsplain := hs htype
      rw [Slave.frame, plain_append] at hsplain
      rw [(hd.slave s (if_pos htype)).1, if_pos htype, (extendBytes_eq_self_iff _).2 hsplain.1]
    · rw [hd.noSlave (if_neg htype), if_neg htype]
  rw [decodedEvents, hvalid, if_pos rfl, hmaster, hslave]

/-- A participant that is not addressed reads the whole text and publishes what it decodes. -/
theorem Monitoring.overhears (h : Monitoring B) (env : Env) (hm : Plain m.frame)
    (hs : m.type = .MS → Plain s.frame) (hother : ¬ Addressed B.impl m.zz) :
    Hears env B (exchangeText m s ++ [seqSyn]) fun evs _ =>
      Attends ((exchangeText m s ++ [seqSyn]).map .got) (m.bytes, answered m s) [] evs := by
  obtain ⟨address, as, hrun⟩ := h.reachable
  obtain ⟨tel, htel, hevents⟩ := decoded_exchangeText hm hs
  have hplain := plain_exchangeText hm hs
  have hsyn : seqSyn ∉ exchangeText m s := fun hmem => hplain seqSyn hmem (.inl rfl)
  have hzz : (exchangeText m s)[1]? = some m.zz := rfl
  have hne : exchangeText m s ≠ [] := by
    intro hnil
    rw [hnil] at hzz
    exact nomatch hzz
  refine .collect h.monitoring h.idle h.operating.1 h.operating.2 hsyn (fun zz hzz' _ => ?_)
    fun B' hcontrol himpl _ => ?_
  · rw [List.nil_append, hzz] at hzz'
    rwa [← Option.some_inj.1 hzz']
  replace himpl : B'.impl = { B.impl with sequence := ⟨exchangeText m s, true⟩ } := himpl hne
  have hseq : B'.impl.sequence = ⟨exchangeText m s, true⟩ := by rw [himpl]
  rw [← hseq] at htel
  obtain ⟨impl', next, hdecode, hresumes⟩ := exec_monitorBus_decode env (by rw [hseq]; exact hne) htel []
  refine .round hcontrol (by rw [himpl]; exact h.operating.1) hdecode
    (by rw [hresumes.close, himpl]; exact h.operating.2) ?_
  refine .resume rfl hresumes (by rw [himpl]; exact h.operating.1) ?_ fun evs _ hquiet hgot => ?_
  · rw [himpl]
    exact sourced_of_run hrun
  · rw [hevents, ← List.append_assoc]
    refine .of_rest ?_ ?_ ?_ hquiet hgot
    · simp [ticks]
    · simp
    · simp

/-- The two addresses of a message for this participant. -/
theorem Monitoring.hears_header (h : Monitoring B) (env : Env) (haddr : Addressed B.impl m.zz) {l : List Byte}
    {P : List Event → System → Prop}
    (hrest : ∀ B' : System, B'.control = .loop .receiveMessage →
      B'.impl = { B.impl with sequence := ⟨[m.qq, m.zz], true⟩ } →
      Hears env B' (m.frame.drop 2 ++ l) fun evs s' => P ([.got m.qq, .got m.zz] ++ evs) s') :
    Hears env B (m.frame ++ l) P := by
  have hqq : m.qq ≠ seqSyn := fun h => not_reserved_of_isMaster m.source (.inl h)
  have hzz : m.zz ≠ seqSyn := fun h => not_reserved_of_isAddressValid m.target (.inl h)
  refine .round h.monitoring h.operating.1 (exec_monitorBus_first h.idle hqq _) h.operating.2 ?_
  refine .round rfl ?_ (exec_monitorBus_second rfl hzz ?_ _) ?_ ?_
  · exact h.operating.1
  · exact haddr
  · exact h.operating.2
  · exact hrest _ rfl rfl

theorem clear_of_plain {part : List Byte} {crc : Byte} (h : Plain (part ++ [crc])) : Clear part crc := by
  rw [plain_append, plain_cons] at h
  exact ⟨h.1, h.2.1.2⟩

/-- A message that is not for a slave is published by those that it is for, and their callbacks get it. -/
theorem Monitoring.receives (h : Monitoring B) (env : Env) (hm : Plain m.frame) (htype : m.type ≠ .MS)
    (haddr : Addressed B.impl m.zz) : Hears env B (m.frame ++ (receipt m ++ [seqSyn])) fun evs _ =>
      Attends (m.frame.map .got ++ ticks (echo (receipt m)) ++ [.got seqSyn]) (m.bytes, [])
        (if B.impl.processing then [m.bytes] else []) evs := by
  obtain ⟨address, as, hrun⟩ := h.reachable
  have hclear : Clear m.bytes m.crc := clear_of_plain hm
  have ht : m.Text (reduceBytes m.frame) ⟨extendBytes m.bytes, true⟩ := by
    rw [reduceBytes_of_plain hm]
    exact .full
  have hstored : extendBytes m.bytes = m.bytes := (extendBytes_eq_self_iff _).2 hclear.1
  refine h.hears_header env haddr fun B₁ hcontrol himpl => ?_
  have hrunning : B₁.impl.running = true := by
    rw [himpl]
    exact h.operating.1
  have hclose : B₁.impl.close = false := by
    rw [himpl]
    exact h.operating.2
  obtain ⟨seq, hreduce, hack⟩ := exec_acknowledgeMessage_publish
    (w := { impl := { B₁.impl with sequence := ⟨m.frame, true⟩ }, env, events := (m.frame.drop 2).map .got })
    rfl ht htype [seqSyn]
  have hreceive := (exec_receiveMessage_frame env (by rw [himpl]) hclear _).trans hack
  have hreceived : m.Text seq.reduce.seq ⟨extendBytes m.bytes, true⟩ := by
    rw [hreduce]
    exact ht
  obtain ⟨impl', next, hsyn, hresumes⟩ := exec_monitorBus_idle { B₁.impl with sequence := {} } env rfl []
  refine .round hcontrol hrunning hreceive hclose (.round rfl ?_ (exec_processMessage_drop env hreceived
    htype [seqSyn]) ?_ (.round rfl ?_ hsyn ?_ ?_))
  · exact hrunning
  · exact hclose
  · exact hrunning
  · exact hresumes.close.trans hclose
  refine .resume rfl hresumes hrunning ?_ fun evs _ hquiet hgot => ?_
  · show Sourced { B₁.impl with sequence := {} }
    rw [himpl]
    exact sourced_of_run hrun
  · have hprocessing : B₁.impl.processing = B.impl.processing := by rw [himpl]
    have hframe : [Event.got m.qq, Event.got m.zz] ++ (m.frame.drop 2).map .got = m.frame.map .got := rfl
    simp only [← List.append_assoc]
    refine .of_rest ?_ ?_ ?_ hquiet hgot
    · rw [hframe]
      simp [ticks]
    · rw [hframe]
      simp [hstored]
    · rw [hframe]
      simp [processedMessages_processEvents, hprocessing, hstored]

/-- A message for a slave is answered, and published when the answer is acknowledged. -/
theorem Monitoring.responds (h : Monitoring B) {env : Env} (hanswers : Answers B env s) (hm : Plain m.frame)
    (hs : Plain s.frame) (htype : m.type = .MS) (haddr : Addressed B.impl m.zz) :
    Hears env B (m.frame ++ (seqAck :: (s.frame ++ [seqAck, seqSyn]))) fun evs _ =>
      Attends (m.frame.map .got ++ (ticks (echo (seqAck :: s.frame)) ++ [.got seqAck]) ++ [.got seqSyn])
        (m.bytes, s.bytes) [m.bytes] evs := by
  obtain ⟨address, as, hrun⟩ := h.reachable
  have hclear : Clear m.bytes m.crc := clear_of_plain hm
  have hsclear : Clear s.bytes s.crc := clear_of_plain hs
  have ht : m.Text (reduceBytes m.frame) ⟨extendBytes m.bytes, true⟩ := by
    rw [reduceBytes_of_plain hm]
    exact .full
  have hstored : extendBytes m.bytes = m.bytes := (extendBytes_eq_self_iff _).2 hclear.1
  obtain ⟨storedSlave, hts⟩ := hanswers.answer
  have hslave : storedSlave.seq = s.bytes := hts.stored_of_plain hsclear.1
  refine h.hears_header env haddr fun B₁ hcontrol himpl => ?_
  have hrunning : B₁.impl.running = true := by
    rw [himpl]
    exact h.operating.1
  have hclose : B₁.impl.close = false := by
    rw [himpl]
    exact h.operating.2
  have hseq : B₁.impl.sequence = ⟨[m.qq, m.zz], true⟩ := by rw [himpl]
  obtain ⟨seq, hreduce, hreceive⟩ := exec_receiveMessage_on env hseq hclear ht htype
    (s.frame ++ [seqAck, seqSyn])
  have hreceived : m.Text seq.reduce.seq ⟨extendBytes m.bytes, true⟩ := by
    rw [hreduce]
    exact ht
  have hprocessing : EbusImpl.processing { B₁.impl with sequence := seq } = true := by
    rw [himpl]
    exact hanswers.processing
  have hfree : B₁.impl.activeMessage = none := by
    rw [himpl]
    exact hanswers.free
  obtain ⟨seq', hprocess⟩ := exec_processMessage_on hprocessing hanswers.reaction hreceived htype hts
    (s.frame ++ [seqAck, seqSyn])
  let passive : Message := ⟨0, answeredTelegram m ⟨extendBytes m.bytes, true⟩ s storedSlave, 0⟩
  let impl₂ : EbusImpl := { B₁.impl with sequence := seq', passiveMessage := some passive }
  have hsend := exec_sendResponse_on env (show impl₂.passiveMessage = some passive from rfl) [seqSyn]
  have hframe : storedSlave.seq ++ s.crc :: [seqAck, seqSyn] = s.frame ++ [seqAck, seqSyn] := by
    rw [hslave, Slave.frame, List.append_assoc]
    rfl
  obtain ⟨impl', next, hsyn, hresumes⟩ := exec_monitorBus_idle (resetImpl impl₂) env rfl []
  refine .round hcontrol hrunning hreceive hclose (.round rfl ?_ hprocess ?_ ?_)
  · exact hrunning
  · exact hclose
  rw [← hframe]
  refine .round rfl ?_ hsend ?_ (.round rfl ?_ hsyn ?_ ?_)
  · exact hrunning
  · exact hclose
  · exact hrunning
  · exact hresumes.close.trans hclose
  refine .resume rfl hresumes hrunning ?_ fun evs _ hquiet hgot => ?_
  · intro message hheld
    refine sourced_of_run hrun message (List.mem_append_right _ ?_)
    have hqueue : B₁.impl.messageQueue = B.impl.messageQueue := by rw [himpl]
    rw [← hqueue]
    exact hheld
  · have hhead : [Event.got m.qq, Event.got m.zz] ++ (m.frame.drop 2).map .got = m.frame.map .got := rfl
    have hbytes : storedSlave.seq ++ [s.crc] = s.frame := by
      rw [hslave]
      rfl
    have hpart : passive.telegram.slave.seq ++ [passive.telegram.slaveCRC] = s.frame := hbytes
    have hmaster : passive.telegram.master.seq = m.bytes := hstored
    have hanswer : passive.telegram.slave.seq = s.bytes := hslave
    have hack : ticks (echo (seqAck :: s.frame)) = .wrote seqAck :: .got seqAck :: ticks (echo s.frame) := rfl
    have hfree₂ : impl₂.activeMessage = none := hfree
    rw [hpart, hfree₂, resetEvents, List.append_nil]
    simp only [← List.append_assoc]
    refine .of_rest ?_ ?_ ?_ hquiet hgot
    · rw [hhead, hack]
      simp [ticks]
    · rw [hhead]
      simp [hmaster, hanswer]
    · rw [hhead]
      simp [hstored]

end Others

/-! ### All participants -/

section Network

variable {S : ι → System} {env : ι → Env} {a b : ι} {call : Call} {m : Master} {s : Slave}

theorem addressed_of_broadcast {impl : EbusImpl} {m : Master} (h : m.type = .BC) : Addressed impl m.zz :=
  .inl (m.type_eq_BC.1 h)

/-- Every participant but the sender does what it sees. -/
theorem Network.attends [DecidableEq ι] (h : Network S env a b call m s) (hm : Plain m.frame)
    (hs : m.type = .MS → Plain s.frame) {i : ι} (hi : i ≠ a) :
    Hears (env i) (S i) (exchangeText m s ++ [seqSyn]) fun evs _ =>
      ∃ messages, Attends (view i (exchange a b m s)) (m.bytes, answered m s) messages evs ∧
        (Processes S a m i → messages = [m.bytes]) ∧ (¬ Processes S a m i → messages = []) := by
  have hothers := h.others i hi
  by_cases haddr : Addressed (S i).impl m.zz
  · have hprocesses : Processes S a m i ↔ (S i).impl.processing = true :=
      ⟨fun hp => hp.2.2, fun hp => ⟨hi, haddr, hp⟩⟩
    have htarget : m.type ≠ .BC → i = b := fun hbroad => ((h.addressed hbroad).2 i hi).1 haddr
    by_cases hms : m.type = .MS
    · obtain rfl := htarget (by rw [hms]; decide)
      have hanswers := h.answering hms
      have htext : exchangeText m s ++ [seqSyn] = m.frame ++ (seqAck :: (s.frame ++ [seqAck, seqSyn])) := by
        simp [exchangeText, hms]
      rw [htext, view_target hi.symm, hms, answered, if_pos hms]
      refine (hothers.responds hanswers hm (hs hms) hms haddr).mono fun evs _ hattends =>
        ⟨_, hattends, fun _ => rfl, fun hno => absurd (hprocesses.2 hanswers.processing) hno⟩
    · have hview : view i (exchange a b m s) =
          m.frame.map .got ++ ticks (echo (receipt m)) ++ [.got seqSyn] := by
        rcases m.type_cases with htype | htype | htype
        · rw [view_bystander hi.symm fun hbroad => absurd htype hbroad]
          simp [exchangeText, receipt, htype, ticks, echo]
        · obtain rfl := htarget (by rw [htype]; decide)
          rw [view_target hi.symm]
          simp [receipt, htype]
        · exact absurd htype hms
      have htext : exchangeText m s ++ [seqSyn] = m.frame ++ (receipt m ++ [seqSyn]) := by
        rcases m.type_cases with htype | htype | htype
        · simp [exchangeText, receipt, htype]
        · simp [exchangeText, receipt, htype]
        · exact absurd htype hms
      rw [htext, hview, answered, if_neg hms]
      refine (hothers.receives (env i) hm hms haddr).mono fun evs _ hattends => ⟨_, hattends, fun hp => ?_,
        fun hno => ?_⟩
      · rw [if_pos (hprocesses.1 hp)]
      · rw [if_neg fun hp => hno (hprocesses.2 hp)]
  · have hbroad : m.type ≠ .BC := fun hbroad => haddr (addressed_of_broadcast hbroad)
    have hother : b ≠ i := fun hb => haddr (((h.addressed hbroad).2 i hi).2 hb.symm)
    rw [view_bystander hi.symm fun _ => hother]
    exact (hothers.overhears (env i) hm hs haddr).mono fun evs _ hattends =>
      ⟨_, hattends, fun hp => absurd hp.2.1 haddr, fun _ => rfl⟩

end Network

/-! ### A sample -/

end EBusFsm

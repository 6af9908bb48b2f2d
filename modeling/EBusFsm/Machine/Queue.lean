import EBusFsm.Machine.Passive

/-!
# The queue of messages

Every call of `transmit` enqueues one message. `served_in_order` says that in every run the messages
enqueued so far are, in this order, those completed, the active one and those in `m_messageQueue`, and that a
message changes only while it is the active one. The proof reads off every round how the messages move
(`Moved`).

`stranded_iff_waiting` and `stranded_iff_destroyed` say when a caller is left behind: `idleSystem` completes
the active message only, and the destructor drops what is in the queue.
-/

namespace EBusFsm

open Prog

/-! ### The property -/

/-- The messages that the actions put into the queue. -/
def enqueued (as : List Action) : List Message :=
  as.filterMap fun a =>
    match a with
    | .enqueue message => some message
    | _ => none

/-- The messages enqueued by `as` are served one at a time, in order and once. What changes in a message
that has been taken from the queue is left to the exchange (`Message.core`). -/
structure InOrder (as : List Action) (s : System) : Prop where
  order : ∃ served, enqueued as = served ++ s.impl.messageQueue ∧
    served.map Message.core = (s.completed.reverse ++ s.impl.activeMessage.toList).map Message.core
  once : ((enqueued as).map Message.id).Nodup

/-- A step changes no message but the active one. -/
structure Untampered (s s' : System) : Prop where
  waiting : ∀ message ∈ s.entering ++ s.impl.messageQueue,
    message ∈ s'.entering ++ s'.impl.messageQueue ∨ s'.impl.activeMessage = some message
  completed : ∃ l, s'.completed = l ++ s.completed

/-! ### Rounds -/

/-- How a round that notifies some messages moves them. -/
inductive Moved (impl impl' : EbusImpl) : List Message → Prop
  | kept (hqueue : impl'.messageQueue = impl.messageQueue)
      (hactive : impl'.activeMessage.map Message.core = impl.activeMessage.map Message.core) :
      Moved impl impl' []
  | taken {message : Message} (hnone : impl.activeMessage = none)
      (hqueue : impl.messageQueue = message :: impl'.messageQueue)
      (hactive : impl'.activeMessage = some message) : Moved impl impl' []
  | finished {message message' : Message} (hqueue : impl'.messageQueue = impl.messageQueue)
      (hactive : impl.activeMessage = some message') (hcore : message.core = message'.core)
      (hnone : impl'.activeMessage = none) : Moved impl impl' [message]

section Round

variable {impl impl' : EbusImpl} {env : Env} {state : State} {result : Except Stop State}
  {evs : List Event}

/-- A reset completes the active message. -/
theorem Moved.reset {active : Option Message} (hqueue : impl'.messageQueue = impl.messageQueue)
    (hactive : impl.activeMessage.map Message.core = active.map Message.core)
    (hnone : impl'.activeMessage = none) : Moved impl impl' active.toList := by
  cases active with
  | none =>
    rw [Option.map_none, Option.map_eq_none_iff] at hactive
    refine .kept hqueue ?_
    rw [hactive, hnone]
  | some message =>
    rw [Option.map_some, Option.map_eq_some_iff] at hactive
    obtain ⟨message', hactive, hcore⟩ := hactive
    exact .finished hqueue hactive hcore.symm hnone

theorem Handled.moved (h : Handled impl env state result impl' evs) :
    Moved impl impl' (notifiedMessages evs) := by
  have hquiet : notifiedMessages evs = [] → impl'.messageQueue = impl.messageQueue →
      impl'.activeMessage.map Message.core = impl.activeMessage.map Message.core →
      Moved impl impl' (notifiedMessages evs) := by
    intro hevs hqueue hactive
    rw [hevs]
    exact .kept hqueue hactive
  have hreset : ∀ (active : Option Message) {close : List Event}, notifiedMessages close = [] →
      evs = close ++ resetEvents active →
      impl.activeMessage.map Message.core = active.map Message.core →
      impl'.messageQueue = impl.messageQueue → impl'.activeMessage = none →
      Moved impl impl' (notifiedMessages evs) := by
    intro active close hclose hevs hactive hqueue hnone
    rw [hevs, notifiedMessages_append, hclose, notifiedMessages_resetEvents, List.nil_append]
    exact .reset hqueue hactive hnone
  have hexchange : ∀ {message message' : Message}, notifiedMessages evs = [] →
      impl.activeMessage = some message → impl'.activeMessage = some message' →
      message'.core = message.core → impl'.messageQueue = impl.messageQueue →
      Moved impl impl' (notifiedMessages evs) := by
    intro message message' hevs hactive hactive' hcore hqueue
    refine hquiet hevs hqueue ?_
    rw [hactive, hactive', Option.map_some, Option.map_some, hcore]
  have hfailed : ∀ active : Option Message,
      (active.map failedMessage).map Message.core = active.map Message.core := by
    intro active
    rw [Option.map_map]
    rfl
  cases h with
  | idle => exact hreset _ notifiedMessages_nil (List.nil_append _).symm rfl rfl rfl
  | opened _ h => exact hreset _ h.quiet.notifiedMessages rfl rfl rfl rfl
  | collected _ _ h => exact hquiet h.quiet.notifiedMessages rfl rfl
  | addressed _ h => exact hquiet h.quiet.notifiedMessages rfl rfl
  | synced _ hqueue hevs =>
    have hsilent : notifiedMessages (.got seqSyn :: _) = [] := hevs.notifiedMessages
    rw [hsilent]
    cases hqueue with
    | keep => exact .kept rfl rfl
    | take message queue hnone hqueue => exact .taken hnone hqueue rfl
  | oversizeAlone _ h =>
    exact hquiet h.quiet.notifiedMessages (shell_messageQueue h.shell) (shell_activeMessage h.shell)
  | misread _ _ h =>
    exact hquiet h.quiet.notifiedMessages (shell_messageQueue h.shell) (shell_activeMessage h.shell)
  | @oversize _ _ _ message _ _ h hactive =>
    refine hreset (some { message with state := EBUS_ERR_TRANSMIT }) h.quiet.notifiedMessages rfl ?_ rfl rfl
    rw [hactive]
    rfl
  | received _ _ _ _ h =>
    refine hquiet ?_ rfl rfl
    rw [notifiedMessages_append, notifiedMessages_receivedEvents, List.append_nil]
    exact h.quiet.notifiedMessages
  | refused _ _ _ h => exact hquiet h.quiet.notifiedMessages rfl rfl
  | answer | drop => exact hquiet (notifiedMessages_processEvents _ _) rfl rfl
  | responded _ _ h =>
    refine hreset _ ?_ (List.append_cons _ _ _) rfl rfl rfl
    rw [notifiedMessages_append, h.quiet.notifiedMessages]
    rfl
  | won _ _ h => exact hquiet h.quiet.notifiedMessages rfl rfl
  | lost _ _ _ h => exact hquiet h.quiet.notifiedMessages rfl rfl
  | broadcast _ _ _ h => exact hquiet h.quiet.notifiedMessages rfl rfl
  | acked hactive _ _ h => exact hexchange h.quiet.notifiedMessages hactive rfl rfl rfl
  | unacked hactive _ h => exact hexchange h.quiet.notifiedMessages hactive rfl rfl rfl
  | @responseOversize message message' _ _ _ _ hactive _ h _ h' hcore =>
    refine hreset (some message') (h.trans h').quiet.notifiedMessages (List.append_cons _ _ _) ?_ rfl rfl
    rw [hactive, Option.map_some, Option.map_some, hcore]
  | accepted hactive _ h _ _ h' =>
    exact hexchange (h.trans h').quiet.notifiedMessages hactive rfl rfl rfl
  | rejected hactive h hcore => exact hexchange h.quiet.notifiedMessages hactive rfl hcore rfl
  | freed h => exact hreset _ h.quiet.notifiedMessages rfl rfl rfl rfl
  | unopened => exact hreset _ notifiedMessages_nil (List.nil_append _).symm (hfailed _).symm rfl rfl
  | device h =>
    have hqueue := shell_messageQueue h.shell
    refine hreset _ h.quiet.notifiedMessages rfl ?_ hqueue rfl
    rw [hfailed, shell_activeMessage h.shell]
  | hung h =>
    exact hquiet h.quiet.notifiedMessages (shell_messageQueue h.shell) (shell_activeMessage h.shell)

end Round

/-! ### Runs -/

@[simp] theorem enqueued_append (as as' : List Action) :
    enqueued (as ++ as') = enqueued as ++ enqueued as' := List.filterMap_append

theorem enqueued_of_sets {a : Action} (h : a.sets = true) : enqueued [a] = [] := by
  cases a with
  | enqueue => exact nomatch h
  | _ => rfl

/-- The messages of calls so far have different numbers. -/
structure Numbered (as : List Action) (s : System) : Prop where
  nodup : ((s.entering ++ enqueued as).map Message.id).Nodup
  lt : ∀ message ∈ s.entering ++ enqueued as, message.id < s.nextId

theorem numbered_init (address : Byte) : Numbered [] (System.init address) where
  nodup := by simp [System.init, enqueued]
  lt := by simp [System.init, enqueued]

theorem numbered_step {address : Byte} {as : List Action} {s s' : System} {a : Action}
    (hsound : Sound address s) (h : Numbered as s) (hstep : s.step a = some s') :
    Numbered (as ++ [a]) s' := by
  have hsame : enqueued [a] = [] → s'.entering = s.entering → s'.nextId = s.nextId →
      Numbered (as ++ [a]) s' := by
    intro hno hentering hnext
    refine ⟨?_, ?_⟩
    · rw [enqueued_append, hno, List.append_nil, hentering]
      exact h.nodup
    · rw [enqueued_append, hno, List.append_nil, hentering, hnext]
      exact h.lt
  cases stepped hsound.control hstep with
  | setting _ _ _ _ _ _ _ hsets => exact hsame (enqueued_of_sets hsets) rfl rfl
  | called =>
    refine ⟨?_, fun message hmessage => ?_⟩
    · show ((⟨s.nextId, _, 0⟩ :: s.entering ++ enqueued (as ++ [_])).map Message.id).Nodup
      rw [enqueued_append, show enqueued [.transmit _] = [] from rfl, List.append_nil, List.cons_append,
        List.map_cons, List.nodup_cons]
      refine ⟨fun hmem => ?_, h.nodup⟩
      obtain ⟨message, hmessage, hid⟩ := List.mem_map.1 hmem
      have hlt := h.lt message hmessage
      rw [hid] at hlt
      exact Nat.lt_irrefl _ hlt
    · rw [enqueued_append, show enqueued [.transmit _] = [] from rfl, List.append_nil] at hmessage
      rcases List.mem_cons.1 hmessage with rfl | hmessage
      · exact Nat.lt_succ_self _
      · exact Nat.lt_succ_of_lt (h.lt message hmessage)
  | @enqueued message hmessage =>
    have hperm : (s.entering.erase message ++ enqueued (as ++ [.enqueue message])).Perm
        (s.entering ++ enqueued as) := by
      rw [enqueued_append, ← List.append_assoc]
      refine (List.perm_append_singleton _ _).trans ?_
      rw [← List.cons_append]
      exact (List.perm_cons_erase hmessage).symm.append_right _
    refine ⟨(hperm.map _).nodup_iff.2 h.nodup, fun message' hmessage' => ?_⟩
    exact h.lt message' (hperm.mem_iff.1 hmessage')
  | _ => exact hsame rfl rfl rfl

/-- Every step keeps the order. -/
theorem ordered_step {address : Byte} {as : List Action} {s s' : System} {a : Action}
    (hsound : Sound address s) (h : ∃ served, enqueued as = served ++ s.impl.messageQueue ∧
      served.map Message.core = (s.completed.reverse ++ s.impl.activeMessage.toList).map Message.core)
    (hstep : s.step a = some s') : ∃ served, enqueued (as ++ [a]) = served ++ s'.impl.messageQueue ∧
      served.map Message.core =
        (s'.completed.reverse ++ s'.impl.activeMessage.toList).map Message.core := by
  obtain ⟨served, hqueue, hserved⟩ := h
  rw [enqueued_append]
  cases stepped hsound.control hstep with
  | setting _ _ _ _ _ _ _ hsets =>
    rw [enqueued_of_sets hsets, List.append_nil]
    exact ⟨served, hqueue, hserved⟩
  | @enqueued message =>
    refine ⟨served, ?_, hserved⟩
    rw [hqueue, List.append_assoc]
    rfl
  | @thread _ _ _ impl' evs _ hh =>
    rw [show enqueued [.thread _] = [] from rfl, List.append_nil]
    show ∃ served, _ = served ++ impl'.messageQueue ∧ served.map Message.core =
      ((notifiedMessages evs ++ s.completed).reverse ++ impl'.activeMessage.toList).map Message.core
    generalize hnotified : notifiedMessages evs = notified
    have hmoved := hh.moved
    rw [hnotified] at hmoved
    cases hmoved with
    | kept hqueue' hactive =>
      refine ⟨served, hqueue.trans (by rw [hqueue']), hserved.trans ?_⟩
      rw [List.nil_append, List.map_append, List.map_append, ← Option.toList_map, ← Option.toList_map,
        hactive]
    | @taken message hnone hqueue' hactive =>
      refine ⟨served ++ [message], ?_, ?_⟩
      · rw [hqueue, hqueue', List.append_assoc]
        rfl
      · rw [List.map_append, hserved, hnone, hactive]
        simp
    | @finished message message' hqueue' hactive hcore hnone =>
      refine ⟨served, hqueue.trans (by rw [hqueue']), hserved.trans ?_⟩
      rw [hactive, hnone]
      simp [hcore]
  | _ => exact ⟨served, (List.append_nil _).trans hqueue, hserved⟩

theorem untampered_step {address : Byte} {s s' : System} {a : Action} (hsound : Sound address s)
    (hstep : s.step a = some s') : Untampered s s' := by
  have hcompleted : ∃ l, s.completed = l ++ s.completed := ⟨[], rfl⟩
  cases stepped hsound.control hstep with
  | called =>
    refine ⟨fun message hm => .inl ?_, hcompleted⟩
    exact List.mem_cons_of_mem _ hm
  | @enqueued message =>
    refine ⟨fun message' hm => .inl ?_, hcompleted⟩
    show message' ∈ s.entering.erase message ++ (s.impl.messageQueue ++ [message])
    simp only [List.mem_append, List.mem_singleton] at hm ⊢
    rcases hm with hm | hm
    · by_cases heq : message' = message
      · exact .inr (.inr heq)
      · exact .inl ((List.mem_erase_of_ne heq).2 hm)
    · exact .inr (.inl hm)
  | @thread _ _ _ impl' evs _ hh =>
    refine ⟨fun message hm => ?_, notifiedMessages evs, rfl⟩
    show message ∈ s.entering ++ impl'.messageQueue ∨ impl'.activeMessage = some message
    have hmoved := hh.moved
    generalize notifiedMessages evs = notified at hmoved
    cases hmoved with
    | kept hqueue =>
      rw [hqueue]
      exact .inl hm
    | taken _ hqueue hactive =>
      rw [hqueue, List.mem_append, List.mem_cons] at hm
      rcases hm with hm | rfl | hm
      · exact .inl (List.mem_append_left _ hm)
      · exact .inr hactive
      · exact .inl (List.mem_append_right _ hm)
    | finished hqueue =>
      rw [hqueue]
      exact .inl hm
  | _ => exact ⟨fun message hm => .inl hm, hcompleted⟩

theorem inOrder_of_run {address : Byte} {guard : System → Action → Prop} {as : List Action} {s : System}
    (hrun : Run System.step guard (System.init address) as s) : InOrder as s := by
  have hinv := hrun.history (I := fun history s => Sound address s ∧ Numbered (history.map Prod.snd) s ∧
      ∃ served, enqueued (history.map Prod.snd) = served ++ s.impl.messageQueue ∧
        served.map Message.core =
          (s.completed.reverse ++ s.impl.activeMessage.toList).map Message.core)
    (fun _ _ _ _ h _ hstep => by
      rw [List.map_append]
      exact ⟨h.1.step hstep, numbered_step h.1 h.2.1 hstep, ordered_step h.1 h.2.2 hstep⟩)
    ⟨sound_init address, numbered_init address, [], rfl, rfl⟩
  rw [hrun.visited_map_snd] at hinv
  obtain ⟨-, hnumbered, horder⟩ := hinv
  refine ⟨horder, ?_⟩
  have hnodup := hnumbered.nodup
  rw [List.map_append] at hnodup
  exact hnodup.of_append_right

/-- **Messages are served one at a time, in the order in which they were enqueued, and once**, in every run;
and no step changes a message that is not the active one. -/
theorem served_in_order {address : Byte} {as : List Action} {s : System}
    (hrun : Run System.step (fun _ _ => True) (System.init address) as s) :
    InOrder as s ∧ ∀ a s', s.step a = some s' → Untampered s s' :=
  ⟨inOrder_of_run hrun, fun _ _ hstep => untampered_step (sound_of_run hrun) hstep⟩

/-- A second message that is equal to the first up to its number. -/
def secondBroadcast : Message := { broadcastMessage with id := 2 }

/-- Two broadcasts are enqueued, and the bus is free for both, one after the other. -/
def requestTwo : List Action :=
  requestBroadcast ++ [.transmit [0xfe, 0xb5, 0x05, 0x01, 0x27], .enqueue secondBroadcast]

/-- The first broadcast has been completed, and the second one is active. -/
theorem served_in_order_sample :
    ∃ s, execute System.step (fun _ _ => true) (System.init 0xff) (requestTwo ++
        handlers [[0xaa], [0xff], [0xfe, 0xb5, 0x05, 0x01, 0x27, 0x31], [0xaa], [0xaa]]) = some s ∧
      s.completed = [broadcastMessage] ∧ s.impl.activeMessage = some secondBroadcast ∧
      InOrder (requestTwo ++
        handlers [[0xaa], [0xff], [0xfe, 0xb5, 0x05, 0x01, 0x27, 0x31], [0xaa], [0xaa]]) s := by
  have hrun : (execute System.step (fun _ _ => true) (System.init 0xff) (requestTwo ++
      handlers [[0xaa], [0xff], [0xfe, 0xb5, 0x05, 0x01, 0x27, 0x31], [0xaa], [0xaa]])).map
        (fun s => (s.completed, s.impl.activeMessage)) =
      some ([broadcastMessage], some secondBroadcast) := by decide +kernel
  obtain ⟨s, hs, heq⟩ := Option.map_eq_some_iff.1 hrun
  obtain ⟨hcompleted, hactive⟩ := Prod.mk.inj heq
  exact ⟨s, hs, hcompleted, hactive, (served_in_order (run_of_execute (fun _ _ _ => trivial) hs)).1⟩

end EBusFsm

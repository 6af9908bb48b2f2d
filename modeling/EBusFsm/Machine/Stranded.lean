import EBusFsm.Machine.Queue

/-!
# Callers that nobody serves

A caller of `transmit` waits until its message is notified. `idleSystem` completes the active message only
and then waits for `open`, and the destructor drops the messages that are in the queue when the thread has
ended. `unstranded` says which steps leave nobody behind (`Attended`), and that every other step does.
-/

namespace EBusFsm

open Prog

/-! ### The property -/

/-- Every message that the actions enqueued has been notified. -/
def NoneStranded (as : List Action) (s : System) : Prop :=
  ∀ message ∈ enqueued as, ∃ message' ∈ s.completed, message'.id = message.id

/-- The end of `~EbusImpl`, when the thread has ended: the messages in the queue are dropped. -/
def System.drain (s : System) : System := { s with impl := { s.impl with messageQueue := [] } }

/-- Nobody waits for a message when the machine waits for `open`, and when the queue has been drained. -/
structure Unstranded (as : List Action) (s : System) : Prop where
  waiting : s.control = .waiting → NoneStranded as s
  destroyed : s.control = .stopped → NoneStranded as s.drain

/-! ### The condition -/

/-- The machine blocks in `idleSystem` with an empty queue, nobody enqueues a message while it does or when
the thread has ended, and the thread ends with no message left. -/
structure Attended (s : System) (a : Action) : Prop where
  idle : ∀ env, a = .thread env → s.control = .loop .idleSystem → s.impl.running = true →
    s.impl.notify = false → s.impl.messageQueue = []
  enqueue : ∀ message, a = .enqueue message → s.control ≠ .waiting ∧ s.control ≠ .stopped
  stop : ∀ env state, a = .thread env → s.control = .loop state → s.impl.running = false →
    s.impl.held = []

/-! ### Who is stranded -/

/-- The messages that have not been notified are those that the thread holds. -/
theorem InOrder.noneStranded_iff {as : List Action} {s : System} (h : InOrder as s) :
    NoneStranded as s ↔ s.impl.held = [] := by
  obtain ⟨⟨served, hqueue, hserved⟩, honce⟩ := h
  have hid : ∀ l : List Message, l.map Message.id = (l.map Message.core).map Message.id := by
    intro l
    rw [List.map_map]
    rfl
  have hids : (enqueued as).map Message.id =
      s.completed.reverse.map Message.id ++ s.impl.held.map Message.id := by
    rw [hqueue, List.map_append, hid served, hserved, ← hid, List.map_append, List.append_assoc,
      EBusFsm.EbusImpl.held, List.map_append]
  rw [hids] at honce
  have hdisjoint := List.disjoint_of_nodup_append honce
  constructor
  · intro hnone
    by_contra hheld
    obtain ⟨message, hmessage⟩ := List.exists_mem_of_ne_nil _ hheld
    have hmem : message.id ∈ (enqueued as).map Message.id := by
      rw [hids]
      exact List.mem_append_right _ (List.mem_map_of_mem hmessage)
    obtain ⟨message₁, hmessage₁, heq⟩ := List.mem_map.1 hmem
    obtain ⟨message₂, hmessage₂, heq'⟩ := hnone message₁ hmessage₁
    refine hdisjoint ?_ (List.mem_map_of_mem hmessage)
    rw [← heq, ← heq']
    exact List.mem_map_of_mem (List.mem_reverse.2 hmessage₂)
  · intro hheld message hmessage
    have hmem := List.mem_map_of_mem (f := Message.id) hmessage
    rw [hids, hheld, List.map_nil, List.append_nil] at hmem
    obtain ⟨message', hmessage', heq⟩ := List.mem_map.1 hmem
    exact ⟨message', List.mem_reverse.1 hmessage', heq⟩

/-- The thread holds no message when it waits or has ended. -/
def System.Left (s : System) : Prop :=
  s.control = .waiting ∨ s.control = .stopped → s.impl.held = []

theorem InOrder.unstranded_iff {as : List Action} {s : System} (h : InOrder as s) :
    Unstranded as s ↔ s.Left := by
  have hiff := h.noneStranded_iff
  constructor
  · rintro ⟨hwaiting, hdestroyed⟩ (hcontrol | hcontrol)
    · exact hiff.1 (hwaiting hcontrol)
    · -- the destructor notifies nobody
      have hdrained : NoneStranded as s := hdestroyed hcontrol
      exact hiff.1 hdrained
  · intro hleft
    exact ⟨fun hcontrol => hiff.2 (hleft (.inl hcontrol)), fun hcontrol => hiff.2 (hleft (.inr hcontrol))⟩

theorem attended_of_other {s : System} {a : Action} (hthread : ∀ env, a ≠ .thread env)
    (henqueue : ∀ message, a ≠ .enqueue message) : Attended s a :=
  ⟨fun env h => absurd h (hthread env), fun message h => absurd h (henqueue message),
    fun env _ h => absurd h (hthread env)⟩

theorem Action.sets.other {a : Action} (h : a.sets = true) :
    (∀ env, a ≠ .thread env) ∧ ∀ message, a ≠ .enqueue message := by
  refine ⟨?_, ?_⟩
  · rintro env rfl
    exact nomatch h
  · rintro message rfl
    exact nomatch h

/-- A round that ends in the `wait` of `idleSystem`, or does not. -/
theorem left_thread {s s' : System} {env : Env} {state : State} {result : Except Stop State}
    {evs : List Event} (hstate : s.control = .loop state) (hrunning : s.impl.running = true)
    (hh : Handled s.impl env state result s'.impl evs) (hcontrol : s'.control = .after result) :
    s'.Left ↔ Attended s (.thread env) := by
  have hstop : ∀ (env' : Env) (state' : State), Action.thread env = .thread env' →
      s.control = .loop state' → s.impl.running = false → s.impl.held = [] := by
    intro _ _ _ _ hstopped
    rw [hrunning] at hstopped
    exact nomatch hstopped
  by_cases hwait : Control.after result = .waiting
  · obtain ⟨rfl, hnotify, himpl⟩ := hh.not_blocked hwait
    have hheld : s'.impl.held = s.impl.messageQueue := by
      rw [himpl]
      rfl
    constructor
    · intro hleft
      refine ⟨fun _ _ _ _ _ => ?_, by simp, hstop⟩
      rw [← hheld]
      exact hleft (.inl (hcontrol.trans hwait))
    · intro hattended _
      rw [hheld]
      exact hattended.idle env rfl hstate hrunning hnotify
  · refine iff_of_true ?_ ⟨fun env' _ hidle _ hnotify => ?_, by simp, hstop⟩
    · rintro (hcontrol' | hcontrol')
      · exact absurd (hcontrol.symm.trans hcontrol') hwait
      · have hstopped := hcontrol.symm.trans hcontrol'
        rcases result with e | next
        · rcases e <;> exact nomatch hstopped
        · exact nomatch hstopped
    · obtain rfl : state = .idleSystem := by simpa using hstate.symm.trans hidle
      exact absurd (hh.blocked hnotify) hwait

/-- A step leaves nobody behind exactly if it is attended. -/
theorem left_step {address : Byte} {s s' : System} {a : Action} (hsound : Sound address s)
    (h : s.Left) (hstep : s.step a = some s') : s'.Left ↔ Attended s a := by
  cases stepped hsound.control hstep with
  | setting _ _ _ _ _ _ _ hsets =>
    obtain ⟨hthread, henqueue⟩ := Action.sets.other hsets
    exact iff_of_true h (attended_of_other hthread henqueue)
  | failed | called | awoken => exact iff_of_true h (attended_of_other (by simp) (by simp))
  | @enqueued message hmessage =>
    have hheld : s.impl.activeMessage.toList ++ (s.impl.messageQueue ++ [message]) ≠ [] := by simp
    constructor
    · intro hleft
      refine ⟨by simp, fun _ _ => ⟨fun hwait => ?_, fun hstop => ?_⟩, by simp⟩
      · exact hheld (hleft (.inl hwait))
      · exact hheld (hleft (.inr hstop))
    · rintro ⟨-, henqueue, -⟩ (hwait | hstop)
      · exact absurd hwait (henqueue message rfl).1
      · exact absurd hstop (henqueue message rfl).2
  | @stopped state env hstate hrunning =>
    constructor
    · intro hleft
      refine ⟨fun _ _ _ hrunning' => ?_, by simp, fun _ _ _ _ _ => hleft (.inr rfl)⟩
      rw [hrunning] at hrunning'
      exact nomatch hrunning'
    · intro hattended _
      exact hattended.stop env state rfl hstate hrunning
  | thread hstate hh hrunning => exact left_thread hstate hrunning hh rfl
  | check | wake =>
    refine iff_of_true ?_ (attended_of_other (by simp) (by simp))
    rintro (hcontrol | hcontrol) <;> exact nomatch hcontrol

/-- **Nobody is stranded in a run whose steps are attended**: every message enqueued so far has been notified
when the machine waits in `idleSystem` and when the destructor has drained the queue. A step that is not
attended leaves somebody behind. -/
theorem unstranded {address : Byte} {as : List Action} {s : System}
    (hrun : Run System.step Attended (System.init address) as s) :
    Unstranded as s ∧
      ∀ a s', s.step a = some s' → (Unstranded (as ++ [a]) s' ↔ Attended s a) := by
  have hinv := hrun.invariant (I := fun s => Sound address s ∧ s.Left)
    (fun _ _ _ h hguard hstep => ⟨h.1.step hstep, (left_step h.1 h.2 hstep).2 hguard⟩)
    ⟨sound_init address, fun _ => rfl⟩
  refine ⟨(inOrder_of_run hrun).unstranded_iff.2 hinv.2, fun a s' hstep => ?_⟩
  have hsteps : Run System.step (fun _ _ => True) s [a] s' := .cons trivial hstep (.nil s')
  have horder := inOrder_of_run ((hrun.mono fun _ _ _ => trivial).append hsteps)
  exact horder.unstranded_iff.trans (left_step hinv.1 hinv.2 hstep)

/-- The test of `Attended`. -/
def attends (s : System) : Action → Bool
  | .thread _ =>
    (s.control != .loop .idleSystem || s.impl.notify || s.impl.messageQueue.isEmpty) &&
      (s.impl.running || s.impl.held.isEmpty)
  | .enqueue _ => s.control != .waiting && s.control != .stopped
  | _ => true

theorem attended_of_attends (s : System) (a : Action) (h : attends s a = true) : Attended s a := by
  refine ⟨?_, ?_, ?_⟩
  · rintro env rfl hidle - hnotify
    rw [attends, Bool.and_eq_true] at h
    simpa [hidle, hnotify] using h.1
  · rintro message rfl
    simpa [attends] using h
  · rintro env state rfl - hrunning
    rw [attends, Bool.and_eq_true] at h
    simpa [hrunning] using h.2

/-- A byte arrives, and `close` takes effect behind it. -/
def closeBus : List Action := [.closeCall, .thread { reads := [.byte 0x10] }, .check, .thread {}]

/-- The broadcast is sent before `close` is called. -/
theorem unstranded_sample :
    ∃ s, execute System.step attends (System.init 0xff) (requestBroadcast ++
        handlers [[0xaa], [0xff], [0xfe, 0xb5, 0x05, 0x01, 0x27, 0x31], [0xaa]] ++ closeBus) = some s ∧
      s.control = .waiting ∧ Unstranded (requestBroadcast ++
        handlers [[0xaa], [0xff], [0xfe, 0xb5, 0x05, 0x01, 0x27, 0x31], [0xaa]] ++ closeBus) s := by
  have hrun : (execute System.step attends (System.init 0xff) (requestBroadcast ++
      handlers [[0xaa], [0xff], [0xfe, 0xb5, 0x05, 0x01, 0x27, 0x31], [0xaa]] ++ closeBus)).map
        System.control = some .waiting := by decide +kernel
  obtain ⟨s, hs, hwait⟩ := Option.map_eq_some_iff.1 hrun
  exact ⟨s, hs, hwait, (unstranded (run_of_execute attended_of_attends hs)).1⟩

/-- `close` is called while the broadcast is in the queue: the machine waits, and nobody serves the call. -/
theorem stranded_sample :
    ¬ ∀ (address : Byte) (as : List Action) (s : System),
      Run System.step (fun _ _ => True) (System.init address) as s → Unstranded as s := by
  intro h
  have hrun : (execute System.step (fun _ _ => true) (System.init 0xff) (requestBroadcast ++ closeBus)).map
      (fun s => (s.control, s.completed)) = some (.waiting, []) := by decide +kernel
  obtain ⟨s, hs, heq⟩ := Option.map_eq_some_iff.1 hrun
  obtain ⟨hwait, hcompleted⟩ := Prod.mk.inj heq
  have hmessage : broadcastMessage ∈ enqueued (requestBroadcast ++ closeBus) := by decide +kernel
  obtain ⟨message, hmem, -⟩ :=
    (h 0xff _ s (run_of_execute (fun _ _ _ => trivial) hs)).waiting hwait _ hmessage
  rw [hcompleted] at hmem
  exact absurd hmem List.not_mem_nil

end EBusFsm

import EBusFsm.Machine.Completion

/-!
# Passive traffic and the pending message

A message is taken from the queue while the lock counter still runs, so telegrams of other participants
are handled before it is sent. `untouched_iff` says when the handler of such a telegram leaves it alone:
always, except for an oversized message for this participant, which `receiveMessage` charges to the
pending message, and for a response that is served to its end, behind which `sendResponse` resets the
machine.

`openDevice` does not meet a pending message, and `idleSystem` only if `close` was called.
-/

namespace EBusFsm

open Prog

/-! ### The property -/

/-- The handler of the state works on the active message. -/
def State.sends : State → Bool
  | .lockBus | .sendMessage | .receiveResponse | .freeBus => true
  | _ => false

/-- The pair belongs to a telegram that the handler received, and not to the active message. -/
inductive Foreign (impl : EbusImpl) (evs : List Event) : List Byte → List Byte → Prop
  | overheard {tel : Telegram} (h : Telegram.ofSequence impl.sequence = .ok (tel, impl.sequence.reduce)) :
      Foreign impl evs tel.master.seq tel.slave.seq
  | received {m : Master} {stored : Sequence} {r rest : List Byte} (hgot : gotBytes evs = r ++ rest)
      (h : m.Text (reduceBytes (impl.sequence.seq ++ r)) stored) : Foreign impl evs stored.seq []
  | answered {message : Message} (h : impl.passiveMessage = some message) :
      Foreign impl evs message.telegram.master.seq message.telegram.slave.seq

/-- The handler leaves the message active as it is, and neither notifies nor publishes it. -/
structure Untouched (impl : EbusImpl) (message : Message) (w : World) : Prop where
  active : w.impl.activeMessage = some message
  silent : notifiedMessages w.events = []
  published : ∀ first second, .published first second ∈ w.events → Foreign impl w.events first second

/-- An oversized message arrives, or a response is served to its end. -/
def Disturbed (impl : EbusImpl) (env : Env) : State → Prop
  | .receiveMessage => ∃ pb sb nn rest,
      env.reads = .byte pb :: .byte sb :: .byte nn :: rest ∧ nn.toNat > seqMaxBytes
  | .sendResponse => ∃ message, impl.passiveMessage = some message ∧ Answered message.telegram env
  | _ => False

/-! ### Where a message can be pending -/

/-- No message is active where the device is to be opened. -/
def Control.Parked (impl : EbusImpl) : Control → Prop
  | .loop .openDevice | .check .openDevice | .waiting => impl.activeMessage = none
  | _ => True

section Round

variable {impl impl' : EbusImpl} {env : Env} {state next : State} {evs : List Event}

theorem Handled.parked {result : Except Stop State} (h : Handled impl env state result impl' evs) :
    (Control.after result).Parked impl' := by
  cases h with
  | idle hresult => rcases hresult with ⟨-, rfl⟩ | ⟨-, rfl⟩ <;> rfl
  | unopened => rfl
  | device _ he =>
    rcases he with rfl | rfl
    · trivial
    · rfl
  | synced => split_ifs <;> trivial
  | acked => split_ifs <;> trivial
  | _ => trivial

theorem Control.Parked.setting {control : Control} (hactive : impl'.activeMessage = impl.activeMessage)
    (h : control.Parked impl) : control.Parked impl' := by
  unfold Control.Parked at h ⊢
  rw [hactive]
  exact h

theorem Quiet.not_published {evs : List Event} (h : Quiet evs) (first second : List Byte) :
    .published first second ∉ evs := fun hmem => nomatch h _ hmem

/-- A message that `receiveMessage` counts to its end is not oversized. -/
theorem Framed.not_disturbed {qq zz : Byte} {r : List Byte} {w : World} (hr : Framed (qq :: zz :: r))
    (h : Adv { impl, env } w (r.map .got ++ evs)) : ¬ Disturbed impl env .receiveMessage := by
  rintro ⟨pb, sb, nn, rest, hreads, hnn⟩
  have hgot := hreads.symm.trans h.reads_got
  obtain ⟨_, _, pb', sb', nn', l, heq⟩ := hr.header
  obtain ⟨rfl, rfl, rfl⟩ : qq = _ ∧ zz = _ ∧ r = pb' :: sb' :: nn' :: l := by simpa using heq
  obtain ⟨hle, -⟩ := (framed_iff _ _ _ _ _ _).1 hr
  obtain ⟨-, -, rfl, -⟩ : pb = pb' ∧ sb = sb' ∧ nn = nn' ∧ _ := by simpa using hgot
  exact absurd hnn (Nat.not_lt_of_le hle)

/-- Behind a handler that completed the message. -/
theorem untouched_iff_of_none {message : Message} {w : World} (hnone : w.impl.activeMessage = none)
    (hdisturbed : Disturbed impl env state) : Untouched impl message w ↔ ¬ Disturbed impl env state := by
  refine iff_of_false (fun h => ?_) (not_not.2 hdisturbed)
  have hactive := h.active
  rw [hnone] at hactive
  exact nomatch hactive

/-- Behind a handler that left `evs` on the wire and published what `evs'` says. -/
theorem untouched_iff_of_kept {message : Message} {w : World} {evs evs' : List Event}
    (hevents : w.events = evs ++ evs') (hquiet : Quiet evs) (hsilent : notifiedMessages evs' = [])
    (hactive : w.impl.activeMessage = some message) (hno : ¬ Disturbed impl env state)
    (hforeign : ∀ first second, .published first second ∈ evs' →
      Foreign impl w.events first second) :
    Untouched impl message w ↔ ¬ Disturbed impl env state := by
  refine iff_of_true ⟨hactive, ?_, fun first second hmem => ?_⟩ hno
  · rw [hevents, notifiedMessages_append, hquiet.notifiedMessages, hsilent]
    rfl
  · rw [hevents] at hmem
    rcases List.mem_append.1 hmem with hmem | hmem
    · exact absurd hmem (hquiet.not_published first second)
    · exact hforeign first second hmem

/-- Behind `processMessage`, which publishes nothing. -/
theorem untouched_of_process {message : Message} {env' : Env} {stored : Sequence}
    (hactive : impl'.activeMessage = some message) :
    Untouched impl message ⟨impl', env', processEvents impl stored⟩ ↔
      ¬ Disturbed impl env .processMessage := by
  refine untouched_iff_of_kept (List.nil_append _).symm quiet_nil (notifiedMessages_processEvents _ _)
    hactive id fun first second hmem => ?_
  unfold processEvents at hmem
  split_ifs at hmem
  · simp at hmem
  · exact absurd hmem List.not_mem_nil

/-- The handler returned without an exception. -/
theorem Handled.untouched {message : Message} {w : World}
    (h : Handled impl env state (.ok next) w.impl w.events)
    (hactive : impl.activeMessage = some message) (hside : state.sends = false)
    (hclose : state ≠ .idleSystem) (hparked : (Control.loop state).Parked impl)
    (hthrows : ¬ Throws impl env state) :
    Untouched impl message w ↔ ¬ Disturbed impl env state := by
  obtain ⟨impl', env', evs⟩ := w
  generalize hresult : Except.ok next = result at h
  have hquiet : Quiet evs → impl'.activeMessage = some message → ¬ Disturbed impl env state →
      (Untouched impl message ⟨impl', env', evs⟩ ↔ ¬ Disturbed impl env state) := fun h hsame hno =>
    untouched_iff_of_kept (List.append_nil _).symm h rfl hsame hno nofun
  cases h with
  | idle => exact absurd rfl hclose
  | opened =>
    have hnone : impl.activeMessage = none := hparked
    rw [hnone] at hactive
    exact nomatch hactive
  | collected _ _ h => exact hquiet h.quiet hactive id
  | addressed _ h => exact hquiet h.quiet hactive id
  | @synced active _ evs' _ _ h hqueue hevs =>
    refine untouched_iff_of_kept rfl h.quiet hevs.notifiedMessages ?_ id
      fun first second hmem => ?_
    · cases hqueue with
      | keep => exact hactive
      | take _ _ hnone =>
        rw [hnone] at hactive
        exact nomatch hactive
    · cases hevs with
      | nothing => exact absurd hmem List.not_mem_nil
      | telegram tel _ htel =>
        obtain ⟨rfl, rfl⟩ : first = _ ∧ second = _ := by simpa using hmem
        exact .overheard htel
  | oversizeAlone | misread | hung => exact nomatch hresult
  | oversize hnn h => exact untouched_iff_of_none rfl ⟨_, _, _, _, h.reads, hnn⟩
  | @received qq zz r m stored _ evs' _ hseq hr ht _ h =>
    refine untouched_iff_of_kept rfl h.quiet (notifiedMessages_receivedEvents _ _) hactive
      (hr.not_disturbed h) fun first second hmem => ?_
    obtain ⟨rfl, rfl⟩ : first = stored.seq ∧ second = [] := by
      unfold receivedEvents at hmem
      split_ifs at hmem
      · simpa using hmem
      · exact absurd hmem List.not_mem_nil
    have hgot : gotBytes (r.map .got ++ evs' ++ receivedEvents m stored) =
        r ++ gotBytes (evs' ++ receivedEvents m stored) := by
      rw [List.append_assoc, gotBytes_append, gotBytes_map_got]
    have htext : m.Text (reduceBytes (impl.sequence.seq ++ r)) stored := by
      rw [hseq]
      exact ht
    exact .received hgot htext
  | refused _ hr _ h => exact hquiet h.quiet hactive (hr.not_disturbed h)
  | answer => exact untouched_of_process hactive
  | drop => exact untouched_of_process hactive
  | responded hpassive hevs h =>
    exact untouched_iff_of_none rfl ⟨_, hpassive, _, _, _, hevs, h.reads, h.sent⟩
  | unopened _ _ h => exact absurd h hthrows
  | device _ _ _ h => exact absurd h hthrows
  | _ => exact nomatch hside

end Round

theorem parked_step {address : Byte} {s s' : System} {a : Action} (hsound : Sound address s)
    (h : s.control.Parked s.impl) (hstep : s.step a = some s') : s'.control.Parked s'.impl := by
  cases stepped hsound.control hstep with
  | setting => exact h.setting rfl
  | enqueued => exact h.setting rfl
  | failed | called | awoken => exact h
  | stopped => trivial
  | thread _ hh => exact hh.parked
  | @check state hstate =>
    rw [hstate] at h
    show (Control.loop (if s.impl.close then .idleSystem else state)).Parked s.impl
    split_ifs
    · trivial
    · cases state <;> exact h
  | wake hwait =>
    rw [hwait] at h
    exact h

/-- No message is active where the device is to be opened, in any run. -/
theorem parked_of_run {address : Byte} {guard : System → Action → Prop} {as : List Action} {s : System}
    (hrun : Run System.step guard (System.init address) as s) : s.control.Parked s.impl :=
  (hrun.invariant (I := fun s => Sound address s ∧ s.control.Parked s.impl)
    (fun _ _ _ h _ hstep => ⟨h.1.step hstep, parked_step h.1 h.2 hstep⟩)
    ⟨sound_init address, rfl⟩).2

/-- **The handlers of passive traffic leave the pending message alone**, exactly when no oversized message
arrives and no response is served to its end. The other handlers that are not on the active side do not
meet a pending message, except for `idleSystem`, which only `close` leads to. -/
theorem untouched_iff {address : Byte} {as : List Action} {s : System}
    (hrun : Run System.step (fun _ _ => True) (System.init address) as s) {state : State}
    (hstate : s.control = .loop state) (hside : state.sends = false) (hclose : state ≠ .idleSystem)
    {message : Message} (hactive : s.impl.activeMessage = some message) {env : Env} {next : State}
    {w : World} (hreturn : exec (handler state) { impl := s.impl, env } = (.ok next, w)) :
    Untouched s.impl message w ↔ ¬ Disturbed s.impl env state := by
  have hready := (sound_of_run hrun).control
  have hparked := parked_of_run hrun
  rw [hstate] at hready hparked
  exact (handled_of_ok hready hreturn).untouched hactive hside hclose hparked (not_throws_of_ok hreturn)

/-- The broadcast waits for the lock counter, which starts at five. -/
def pendBroadcast : List Action :=
  handlers [[0xaa]] ++ [.transmit [0xfe, 0xb5, 0x05, 0x01, 0x27], .enqueue broadcastMessage] ++
    handlers [[0xaa]]

/-- The master `10` starts a telegram while the broadcast waits. -/
theorem untouched_sample :
    ∃ s w, execute System.step (fun _ _ => true) (System.init 0xff) pendBroadcast = some s ∧
      exec (handler .monitorBus) { impl := s.impl, env := { reads := [.byte 0x10] } } =
        (.ok .monitorBus, w) ∧
      Untouched s.impl broadcastMessage w := by
  have hrun : ((execute System.step (fun _ _ => true) (System.init 0xff) pendBroadcast).map fun s =>
      (s.control, s.impl.activeMessage,
        (exec (handler .monitorBus) { impl := s.impl, env := { reads := [.byte 0x10] } }).1)) =
      some (.loop .monitorBus, some broadcastMessage, .ok .monitorBus) := by decide +kernel
  obtain ⟨s, hs, heq⟩ := Option.map_eq_some_iff.1 hrun
  obtain ⟨hstate, hactive, hreturn⟩ : s.control = .loop .monitorBus ∧
      s.impl.activeMessage = some broadcastMessage ∧
      (exec (handler .monitorBus) { impl := s.impl, env := { reads := [.byte 0x10] } }).1 =
        .ok .monitorBus := by simpa using heq
  exact ⟨s, _, hs, exec_eq_of_fst hreturn,
    (untouched_iff (run_of_execute (fun _ _ _ => trivial) hs) hstate rfl nofun hactive
      (exec_eq_of_fst hreturn)).2 id⟩

/-- The header `10feb50511` of an oversized broadcast arrives while the broadcast waits: the broadcast is
completed as failed. -/
theorem touched_sample :
    ¬ ∀ (address : Byte) (as : List Action) (s : System) (state : State) (message : Message) (env : Env)
      (next : State) (w : World),
      Run System.step (fun _ _ => True) (System.init address) as s →
      s.control = .loop state → state.sends = false → state ≠ .idleSystem →
      s.impl.activeMessage = some message →
      exec (handler state) { impl := s.impl, env } = (.ok next, w) → Untouched s.impl message w := by
  intro h
  let env : Env := { reads := [.byte 0xb5, .byte 0x05, .byte 0x11] }
  have hrun : ((execute System.step (fun _ _ => true) (System.init 0xff)
      (pendBroadcast ++ handlers [[0x10], [0xfe]])).map fun s =>
      (s.control, s.impl.activeMessage,
        (exec (handler .receiveMessage) { impl := s.impl, env }).1,
        (exec (handler .receiveMessage) { impl := s.impl, env }).2.impl.activeMessage)) =
      some (.loop .receiveMessage, some broadcastMessage, .ok .monitorBus, none) := by decide +kernel
  obtain ⟨s, hs, heq⟩ := Option.map_eq_some_iff.1 hrun
  obtain ⟨hstate, hactive, hreturn, hnone⟩ : s.control = .loop .receiveMessage ∧
      s.impl.activeMessage = some broadcastMessage ∧
      (exec (handler .receiveMessage) { impl := s.impl, env }).1 = .ok .monitorBus ∧
      (exec (handler .receiveMessage) { impl := s.impl, env }).2.impl.activeMessage = none := by
    simpa using heq
  have huntouched := h 0xff _ s _ _ env _ _ (run_of_execute (fun _ _ _ => trivial) hs) hstate rfl
    nofun hactive (exec_eq_of_fst hreturn)
  have hactive' := huntouched.active
  rw [hnone] at hactive'
  exact nomatch hactive'

end EBusFsm

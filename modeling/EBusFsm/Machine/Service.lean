import EBusFsm.Machine.Lock
import EBusFsm.Machine.Stream
import EBusFsm.Machine.Queue
import EBusFsm.Machine.Invariant

/-!
# Every request is served

A bus is calm when nobody else uses it: `monitorBus` and `openDevice` read synchronization bytes only, and
`lockBus` reads back what it wrote, if it reads anything. Whatever else the device does, with errors and timeouts
in the middle of an exchange, a message that waits is completed: `served_in_rounds` bounds the number of rounds by
its place in the queue and the lock counter. The machine must not be closed, and no handler may wait for ever or
fault.

The variant is the place of the message, and behind it the way of the message in front of the queue: each state
has its rank, and in `monitorBus` the lock counter counts.
-/

namespace EBusFsm

open Prog

/-! ### The property -/

/-- What the device gives the handler of the state when nobody else uses the bus. -/
def Calm (impl : EbusImpl) (env : Env) : State → Prop
  | .monitorBus => env.SynOnly
  | .openDevice => env.opens = true ∧ env.SynOnly
  | .lockBus => ∀ message qq rest b reads, impl.activeMessage = some message →
      message.telegram.master.seq = qq :: rest → env.reads = .byte b :: reads → b = qq
  | _ => True

/-- A round on a calm bus that comes to its end. Other threads act before the handler and behind it. -/
inductive CalmRound (s s' : System) : Prop
  | intro {as as' : List Action} {s₁ s₂ s₃ : System} {env : Env} {state : State}
      (hstate : s.control = .loop state) (hbefore : Run System.step (fun _ a => a.aside = true) s as s₁)
      (hcalm : Calm s₁.impl env state) (hread : s₁.step (.thread env) = some s₂)
      (hbehind : Run System.step (fun _ a => a.aside = true) s₂ as' s₃) (hcheck : s₃.step .check = some s')

/-- The message with the number `id` has been notified. -/
def Notified (id : Nat) (s : System) : Prop := ∃ message ∈ s.completed, message.id = id

/-- The numbers of the messages that the thread holds, the active one first. -/
def EbusImpl.heldIds (impl : EbusImpl) : List Nat := impl.held.map Message.id

/-! ### The rank of a state -/

/-- The most that the lock counter can be. -/
def lockBound (m : Int) : Nat := (max 2 m).toNat

/-- How many rounds the message in front needs at most. -/
def rank (m : Int) (impl : EbusImpl) : State → Nat
  | .freeBus => 0
  | .receiveResponse => 1
  | .sendMessage => 2
  | .lockBus => 3
  | .monitorBus => 4 + (syncedLock impl).toNat
  | .openDevice => 5 + lockBound m
  | .sendResponse => 6 + lockBound m
  | .processMessage => 7 + lockBound m
  | .receiveMessage => 8 + lockBound m
  | .idleSystem => 9 + lockBound m

/-- More than any rank. -/
def roundBound (m : Int) : Nat := 10 + lockBound m

theorem Ranged.synced_le {m : Int} {impl : EbusImpl} (h : Ranged m impl) :
    (EBusFsm.syncedLock impl).toNat ≤ lockBound m := by
  obtain ⟨hlow, hhigh⟩ := h.syncedLock
  unfold lockBound
  omega

theorem rank_lt {m : Int} {impl : EbusImpl} (h : Ranged m impl) (state : State) :
    rank m impl state < roundBound m := by
  have hlock := h.synced_le
  unfold roundBound
  cases state <;> simp only [rank] <;> omega

/-! ### One round -/

section Round

variable {impl impl' : EbusImpl} {env : Env} {state next : State} {evs : List Event} {m : Int}

/-- A device that is open, or can be opened, and whose first byte is a synchronization byte. -/
theorem wp_openDevice_calm (hopens : env.opens = true) (hbus : env.SynOnly) :
    wp openDevice (fun _ _ => True) (fun _ _ => False) { impl, env } := by
  obtain ⟨hne, hall⟩ := hbus
  obtain ⟨r, reads, hreads⟩ := List.exists_cons_of_ne_nil hne
  obtain rfl := hall r (by simp [hreads])
  have hflush : ∀ impl' : EbusImpl, wp synchronize (fun _ _ => True) (fun _ _ => False) { impl := impl', env } := by
    intro impl'
    simp only [synchronize, flush, wp_bind, wp_get]
    rw [flushDevice, wp_bind, wp_read_byte 1 0 _ _ _ seqSyn reads hreads, if_neg (not_not.2 rfl)]
    simp only [wp_pure, wp_reset, wp_modifyImpl]
  unfold openDevice deviceOpen
  cases hopen : impl.deviceOpen with
  | true =>
    simp only [wp_bind, wp_getImpl, hopen, Bool.not_true, Bool.false_eq_true, if_false]
    exact hflush impl
  | false =>
    simp only [wp_bind, wp_getImpl, hopen, Bool.not_false, if_true, wp_get, hopens, Bool.not_true,
      Bool.false_eq_true, if_false, wp_modifyImpl]
    exact hflush _

theorem not_throws_openDevice (hopens : env.opens = true) (hbus : env.SynOnly) :
    ¬ Throws impl env .openDevice := by
  rintro ⟨e, w, hthrown, -⟩
  have hopened : wp openDevice (fun _ _ => True) (fun _ _ => False) { impl, env } :=
    wp_openDevice_calm hopens hbus
  obtain ⟨next, w', hok, -⟩ := exists_of_wp hopened
  rw [handler, hok] at hthrown
  exact nomatch (Prod.mk.inj hthrown).1

theorem notifiedMessages_ne_nil {active : Option Message} {close : List Event} (h : active ≠ none) :
    notifiedMessages (close ++ resetEvents active) ≠ [] := by
  rw [notifiedMessages_append, notifiedMessages_resetEvents]
  cases active with
  | none => exact absurd rfl h
  | some message => exact List.append_ne_nil_of_right_ne_nil _ (List.cons_ne_nil _ _)

theorem rank_monitorBus_lt (h : Ranged m impl) {n : Nat} (hn : 5 + lockBound m ≤ n) :
    rank m impl .monitorBus < n := by
  have hlock := h.synced_le
  simp only [rank]
  omega

/-- A handler completes the message in front, or takes it nearer to its end. -/
theorem Handled.nearer (h : Handled impl env state (.ok next) impl' evs) (hcalm : Calm impl env state)
    (hidle : state ≠ .idleSystem) (hmonitor : state ≠ .monitorBus)
    (hacting : state.sends = true → impl.activeMessage ≠ none) (hranged : Ranged m impl') :
    notifiedMessages evs ≠ [] ∨ rank m impl' next < rank m impl state := by
  have hback : ∀ n, 5 + lockBound m ≤ n → rank m impl' .monitorBus < n := fun n => rank_monitorBus_lt hranged
  have hreset : ∀ (active : Option Message) (close : List Event), evs = close ++ resetEvents active →
      (active = none → rank m impl' next < rank m impl state) →
      notifiedMessages evs ≠ [] ∨ rank m impl' next < rank m impl state := by
    intro active close hevs hrank
    by_cases hnone : active = none
    · exact .inr (hrank hnone)
    · rw [hevs]
      exact .inl (notifiedMessages_ne_nil hnone)
  generalize hresult : (Except.ok next : Except Stop State) = result at h
  cases h with
  | idle => exact absurd rfl hidle
  | opened =>
    obtain rfl := Except.ok.inj hresult
    exact hreset _ _ rfl fun _ => hback _ le_rfl
  | collected | addressed | synced => exact absurd rfl hmonitor
  | oversizeAlone | misread | hung => exact nomatch hresult
  | @oversize _ _ _ message =>
    exact hreset (some { message with state := EBUS_ERR_TRANSMIT }) _ rfl nofun
  | @responseOversize message message' => exact hreset (some message') _ (List.append_cons _ _ _) nofun
  | received | answer =>
    obtain rfl := Except.ok.inj hresult
    refine .inr ?_
    simp only [rank]
    omega
  | refused | drop =>
    obtain rfl := Except.ok.inj hresult
    exact .inr (hback _ (by simp [rank]))
  | responded =>
    obtain rfl := Except.ok.inj hresult
    exact hreset _ _ (List.append_cons _ _ _) fun _ => hback _ (by simp [rank])
  | won | broadcast | unacked | accepted | rejected =>
    obtain rfl := Except.ok.inj hresult
    refine .inr ?_
    simp only [rank]
    omega
  | lost hactive hqq hb h => exact absurd (hcalm _ _ _ _ _ hactive hqq h.reads) hb
  | acked =>
    obtain rfl := Except.ok.inj hresult
    refine .inr ?_
    split_ifs <;> simp only [rank] <;> omega
  | freed =>
    obtain rfl := Except.ok.inj hresult
    exact hreset _ [_, _] rfl fun hnone => absurd hnone (hacting rfl)
  | unopened hclosed hopens =>
    rw [hcalm.1] at hopens
    exact nomatch hopens
  | device h he hfree hthrows =>
    obtain rfl := Except.ok.inj hresult
    refine hreset _ _ rfl fun hnone => ?_
    have hactive := shell_activeMessage h.shell
    rw [Option.map_eq_none_iff.1 hnone, Option.map_none, eq_comm, Option.map_eq_none_iff] at hactive
    -- nothing was under way, so the device failed while a message of others was received or answered
    have hrank : 6 + lockBound m ≤ rank m impl state := by
      cases state with
      | idleSystem => exact absurd rfl hidle
      | monitorBus => exact absurd rfl hmonitor
      | openDevice => exact absurd hthrows (not_throws_openDevice hcalm.1 hcalm.2)
      | lockBus | sendMessage | receiveResponse | freeBus => exact absurd hactive (hacting rfl)
      | _ => simp only [rank]; omega
    refine lt_of_lt_of_le ?_ hrank
    unfold failedState
    split_ifs
    · simp only [rank]
      omega
    · exact hback _ (by omega)

/-- No handler goes to `idleSystem`, only the test behind it. -/
theorem Handled.next_ne_idleSystem (h : Handled impl env state (.ok next) impl' evs) :
    next ≠ .idleSystem := by
  generalize hresult : (Except.ok next : Except Stop State) = result at h
  cases h with
  | idle h =>
    rcases h with ⟨-, rfl⟩ | ⟨-, rfl⟩
    · obtain rfl := Except.ok.inj hresult
      decide
    · exact nomatch hresult
  | oversizeAlone | misread | hung => exact nomatch hresult
  | synced | acked =>
    obtain rfl := Except.ok.inj hresult
    split_ifs <;> decide
  | device =>
    obtain rfl := Except.ok.inj hresult
    unfold failedState
    split_ifs <;> decide
  | _ =>
    obtain rfl := Except.ok.inj hresult
    decide

end Round

/-! ### A round is always possible -/

section Possible

variable {impl : EbusImpl} {env : Env} {state : State}

/-- A handler that an exception of the device stops still leads to a state. -/
theorem returns_of_failed {e : Stop} {w : World} (h : exec (handler state) { impl, env } = (.error e, w))
    (he : e = .warning ∨ e = .error) : ∃ next w', exec (runState state) { impl, env } = (.ok next, w') := by
  have hwp : ∀ error, wp (handleDeviceError error) (fun _ _ => True) (fun _ _ => False) w := fun error =>
    (wp_handleDeviceError error _ _ w).2 trivial
  rcases he with rfl | rfl
  · obtain ⟨next, w', hrun, -⟩ := exists_of_wp (hwp false)
    refine ⟨next, w', ?_⟩
    rw [runState, exec_tryCatch, h]
    exact hrun
  · obtain ⟨next, w', hrun, -⟩ := exists_of_wp (hwp true)
    refine ⟨next, w', ?_⟩
    rw [runState, exec_tryCatch, h]
    exact hrun

theorem returns_of_ok {next : State} {w : World} (h : exec (handler state) { impl, env } = (.ok next, w)) :
    ∃ next w', exec (runState state) { impl, env } = (.ok next, w') := by
  refine ⟨next, w, ?_⟩
  rw [runState, exec_tryCatch, h]

/-- The device refuses the first byte of a part. -/
theorem exec_sendPart_refused (impl : EbusImpl) (part : List Byte) (crc : Byte) :
    exec (sendPart part crc) { impl, env := { sends := [.fail] } } = (.error .error, { impl }) := by
  cases part <;> rfl

theorem wp_monitorBus_syn (impl : EbusImpl) :
    wp monitorBus (fun _ _ => True) (fun _ _ => False) { impl, env := { reads := [.byte seqSyn] } } := by
  refine wp_monitorBus _ _ _ (fun _ _ _ _ _ _ => trivial) (fun _ _ _ _ _ _ _ _ => trivial)
    (fun _ _ _ => wp_handleSyn _ _ _ fun _ _ _ _ _ _ _ _ => trivial) fun e w' h => ?_
  obtain ⟨rest, hreads, hno⟩ := h.dry
  exact hno seqSyn [] hreads.symm

/-- On a calm bus every handler can come to its end. -/
theorem exists_returning (hready : Ready impl state) (hidle : state ≠ .idleSystem) :
    ∃ env next w, Calm impl env state ∧ exec (runState state) { impl, env } = (.ok next, w) := by
  have hbus : Env.SynOnly { reads := [.byte seqSyn] } := ⟨by simp, by simp⟩
  have hget : ∀ w : World, exec getImpl w = (.ok w.impl, w) := fun _ => rfl
  have hderef : ∀ (message : Message) (w : World), exec (deref (some message)) w = (.ok message, w) :=
    fun _ _ => rfl
  -- the device refuses a write, or has nothing more to read
  have hfailed : ∀ {env : Env} {e : Stop} {w : World}, exec (handler state) { impl, env } = (.error e, w) →
      e = .warning ∨ e = .error → Calm impl env state →
      ∃ env next w, Calm impl env state ∧ exec (runState state) { impl, env } = (.ok next, w) := by
    intro env e w h he hcalm
    obtain ⟨next, w', hrun⟩ := returns_of_failed h he
    exact ⟨env, next, w', hcalm, hrun⟩
  have hok : ∀ {env : Env}, wp (handler state) (fun _ _ => True) (fun _ _ => False) { impl, env } →
      Calm impl env state →
      ∃ env next w, Calm impl env state ∧ exec (runState state) { impl, env } = (.ok next, w) := by
    intro env h hcalm
    obtain ⟨next, w, hrun, -⟩ := exists_of_wp h
    obtain ⟨next, w', hrun⟩ := returns_of_ok hrun
    exact ⟨env, next, w', hcalm, hrun⟩
  cases state with
  | idleSystem => exact absurd rfl hidle
  | openDevice => exact hok (wp_openDevice_calm rfl hbus) ⟨rfl, hbus⟩
  | monitorBus => exact hok (wp_monitorBus_syn impl) hbus
  | receiveMessage =>
    have hrun : exec receiveMessage { impl, env := { reads := [.eof] } } = (.error .warning, { impl }) := rfl
    exact hfailed hrun (.inl rfl) trivial
  | processMessage =>
    obtain ⟨m, stored, ht⟩ := hready
    have hwp : wp processMessage (fun _ _ => True) (fun _ _ => False) { impl } :=
      wp_processMessage _ _ _ ht (fun _ _ _ _ _ _ _ => trivial) trivial
    exact hok hwp trivial
  | sendResponse =>
    obtain ⟨message, hpassive⟩ := hready
    have hrun : exec sendResponse { impl, env := { sends := [.fail] } } = (.error .error, { impl }) := by
      simp only [sendResponse, exec_bind, hget, hpassive, hderef, exec_sendPart_refused]
    exact hfailed hrun (.inr rfl) trivial
  | lockBus =>
    obtain ⟨message, qq, rest, hactive, hqq⟩ := hready
    have hrun : exec lockBus { impl, env := { sends := [.fail] } } = (.error .error, { impl }) := by
      simp only [lockBus, exec_bind, hget, hactive, hderef, Telegram.getMasterQQ_eq hqq]
      rfl
    refine hfailed hrun (.inr rfl) ?_
    intro _ _ _ _ _ _ _ hreads
    cases hreads
  | sendMessage =>
    obtain ⟨message, hactive⟩ := hready
    have hrun : exec sendMessage { impl, env := { sends := [.fail] } } = (.error .error, { impl }) := by
      simp only [sendMessage, sendAttempt, exec_bind, hget, hactive, hderef, exec_sendPart_refused]
    exact hfailed hrun (.inr rfl) trivial
  | receiveResponse =>
    obtain ⟨message, hactive⟩ := hready
    have hrun : exec receiveResponse { impl, env := { reads := [.eof] } } = (.error .warning, { impl }) := by
      simp only [receiveResponse, exec_bind, hget, hactive, hderef]
      rfl
    exact hfailed hrun (.inl rfl) trivial
  | freeBus =>
    have hrun : exec freeBus { impl, env := { sends := [.fail] } } = (.error .error, { impl }) := rfl
    exact hfailed hrun (.inr rfl) trivial

end Possible

/-! ### The place of a message -/

/-- The messages that a round notifies are those in front. -/
theorem Moved.heldIds {impl impl' : EbusImpl} {notified : List Message} (h : Moved impl impl' notified) :
    impl.heldIds = notified.map Message.id ++ impl'.heldIds := by
  unfold EbusImpl.heldIds EbusImpl.held
  cases h with
  | kept hqueue hactive =>
    have hid : ∀ active : Option Message, active.toList.map Message.id =
        (active.map Message.core).toList.map Message.id := by
      intro active
      cases active <;> rfl
    rw [hqueue, List.map_append, List.map_append, hid impl.activeMessage, ← hactive, ← hid]
    rfl
  | taken hnone hqueue hactive =>
    rw [hnone, hqueue, hactive]
    rfl
  | finished hqueue hactive hcore hnone =>
    rw [hqueue, hactive, hnone]
    simp [Message.id_of_core hcore]

/-- What other threads leave to the messages that wait. -/
structure Widened (s s' : System) : Prop where
  spared : Spared s s'
  ids : ∃ more, s'.impl.heldIds = s.impl.heldIds ++ more
  completed : s'.completed = s.completed

section Widened

variable {s s' s₁ : System}

theorem Widened.refl (s : System) : Widened s s := ⟨.refl s, ⟨[], (List.append_nil _).symm⟩, rfl⟩

theorem Widened.trans (h : Widened s s₁) (h' : Widened s₁ s') : Widened s s' where
  spared := h.spared.trans h'.spared
  ids := by
    obtain ⟨more, hmore⟩ := h.ids
    obtain ⟨more', hmore'⟩ := h'.ids
    exact ⟨more ++ more', by rw [hmore', hmore, List.append_assoc]⟩
  completed := h'.completed.trans h.completed

theorem widened_of_step {a : Action} (ha : a.aside = true) (hstep : s.step a = some s') : Widened s s' := by
  have hspared := spared_of_step ha hstep
  cases a with
  | openCall | registerProcess | setOpenCounterMax =>
    cases hstep
    exact ⟨hspared, ⟨[], (List.append_nil _).symm⟩, rfl⟩
  | transmit message =>
    cases stepped_transmit hstep with
    | setting _ _ _ _ _ _ _ hsets => cases hsets
    | failed | called => exact ⟨hspared, ⟨[], (List.append_nil _).symm⟩, rfl⟩
  | enqueue message =>
    simp only [System.step] at hstep
    split_ifs at hstep
    cases hstep
    refine ⟨hspared, ⟨[message.id], ?_⟩, rfl⟩
    unfold EbusImpl.heldIds EbusImpl.held
    rw [← List.append_assoc, List.map_append]
    rfl
  | awake call message =>
    simp only [System.step] at hstep
    split_ifs at hstep
    cases hstep
    exact ⟨hspared, ⟨[], (List.append_nil _).symm⟩, rfl⟩
  | _ => cases ha

theorem widened_of_run {as : List Action} (hrun : Run System.step (fun _ a => a.aside = true) s as s') :
    Widened s s' :=
  hrun.invariant (I := Widened s) (fun _ _ _ h ha hstep => h.trans (widened_of_step ha hstep)) (.refl s)

theorem Widened.idxOf (h : Widened s s') {id : Nat} (hid : id ∈ s.impl.heldIds) :
    s'.impl.heldIds.idxOf id = s.impl.heldIds.idxOf id := by
  obtain ⟨more, hmore⟩ := h.ids
  rw [hmore, List.idxOf_append_of_mem hid]

theorem Widened.mem (h : Widened s s') {id : Nat} (hid : id ∈ s.impl.heldIds) : id ∈ s'.impl.heldIds := by
  obtain ⟨more, hmore⟩ := h.ids
  rw [hmore]
  exact List.mem_append_left _ hid

end Widened

/-! ### The way of a message -/

/-- The actions that leave the maximum of the lock counter alone. -/
def Configured (_ : System) (a : Action) : Prop := ∀ value, a ≠ .setLockCounterMax value

/-- The message with the number `id` waits, and the machine is neither closed nor to be closed. -/
structure Serving (address : Byte) (m : Int) (id : Nat) (s : System) : Prop where
  reachable : ∃ as, Run System.step Configured (System.configured address m) as s
  state : ∃ state, s.control = .loop state ∧ state ≠ .idleSystem
  close : s.impl.close = false
  running : s.impl.running = true
  waits : id ∈ s.impl.heldIds

/-- The rounds that the message with the number `id` may still need. -/
def System.distance (m : Int) (id : Nat) (s : System) : Nat :=
  s.impl.heldIds.idxOf id * roundBound m + match s.control with
    | .loop state => rank m s.impl state
    | _ => 0

theorem aside_configured (s : System) (a : Action) (h : a.aside = true) : Configured s a := by
  rintro value rfl
  exact nomatch h

theorem consistent_of_configured {address : Byte} {m : Int} {as : List Action} {s : System}
    (hrun : Run System.step Configured (System.configured address m) as s) : Consistent address s := by
  have hinit : Run System.step (fun _ _ => True) (System.init address) (.setLockCounterMax m :: as) s :=
    .cons trivial (step_setLockCounterMax address m) (hrun.mono fun _ _ _ => trivial)
  exact consistent_of_run hinit

theorem after_eq_check {result : Except Stop State} {next : State} (h : Control.after result = .check next) :
    result = .ok next := by
  rcases result with e | state
  · cases e <;> exact nomatch h
  · exact congrArg Except.ok (Control.check.inj h)

/-- The handlers that work on the active message find one. -/
theorem Kept.acts {impl : EbusImpl} {state : State} (h : Kept impl state) (hsends : state.sends = true) :
    impl.activeMessage ≠ none := by
  have hacting : Acting impl := by
    cases state <;> first | exact h | exact nomatch hsends
  obtain ⟨message, hactive, -⟩ := hacting.active
  rw [hactive]
  exact Option.some_ne_none message

theorem Spared.rank {s s' : System} (h : Spared s s') (m : Int) (state : State) :
    rank m s'.impl state = rank m s.impl state := by
  cases state <;> simp only [EBusFsm.rank, h.syncedLock]

section Way

variable {address : Byte} {m : Int} {id : Nat} {s s' : System}

/-- A synchronization byte takes the message in front to `lockBus`, or counts. -/
theorem Synced.nearer {next : State} (h : Synced s next s') (hranged : Ranged m s.impl)
    (hheld : s.impl.held ≠ []) : rank m s'.impl next < rank m s.impl .monitorBus := by
  by_cases hlock : syncedLock s.impl = 0
  · rw [h.locks hheld hlock]
    simp only [rank]
    omega
  · rw [h.stays hlock]
    have hcount : syncedLock s'.impl = syncedLock s.impl - 1 := by
      rw [syncedLock_of_empty h.empty, countedLock, h.lock, if_pos hlock]
    have hlow := hranged.syncedLock.1
    simp only [rank]
    omega

/-- What the handler of a calm round does. -/
theorem Serving.handled (hm : 0 ≤ m) (h : Serving address m id s) {env : Env} {state next : State}
    (hstate : s.control = .loop state) (hcalm : Calm s.impl env state) (hidle : state ≠ .idleSystem)
    (hread : s.step (.thread env) = some s') (hnext : s'.control = .check next) :
    ∃ notified, s.impl.heldIds = notified.map Message.id ++ s'.impl.heldIds ∧
      s'.completed = notified ++ s.completed ∧ s'.impl.close = false ∧ s'.impl.running = true ∧
      next ≠ .idleSystem ∧ (notified ≠ [] ∨ rank m s'.impl next < rank m s.impl state) := by
  obtain ⟨as, hrun⟩ := h.reachable
  have hconsistent := consistent_of_configured hrun
  have hranged := ranged_of_run hm hrun
  have hranged' := hranged.step hm (by simp) hread
  have hsynced : state = .monitorBus → rank m s'.impl next < rank m s.impl state := by
    rintro rfl
    obtain ⟨next', s₂, hread', hcontrol, hsynced⟩ := exists_synced hstate h.running hcalm
    obtain rfl := Option.some_inj.1 (hread'.symm.trans hread)
    obtain rfl : next' = next := by
      rw [hcontrol] at hnext
      exact Control.check.inj hnext
    refine hsynced.nearer hranged fun hnil => ?_
    have hwaits := h.waits
    rw [EbusImpl.heldIds, hnil] at hwaits
    exact absurd hwaits List.not_mem_nil
  cases stepped hconsistent.sound.control hread with
  | setting _ _ _ _ _ _ _ hsets => exact nomatch hsets
  | stopped => exact nomatch hnext
  | @thread state' _ result impl' evs hstate' hh =>
    obtain rfl : state' = state := by
      rw [hstate] at hstate'
      exact (Control.loop.inj hstate').symm
    obtain rfl := after_eq_check hnext
    refine ⟨notifiedMessages evs, hh.moved.heldIds, rfl, (hh.close hidle).trans h.close,
      hh.running.trans h.running, hh.next_ne_idleSystem, ?_⟩
    by_cases hmonitor : state' = .monitorBus
    · exact .inr (hsynced hmonitor)
    · exact hh.nearer hcalm hidle hmonitor (hconsistent.kept hstate).acts hranged'

/-- Behind a round the message has been notified, or it is nearer to its end. -/
theorem Serving.round (hm : 0 ≤ m) (h : Serving address m id s) (hround : CalmRound s s') :
    Notified id s' ∨ Serving address m id s' ∧ s'.distance m id < s.distance m id := by
  obtain @⟨_, _, s₁, s₂, s₃, env, state, hstate, hbefore, hcalm, hread, hbehind, hcheck⟩ := hround
  have hwide := widened_of_run hbefore
  have hwide' := widened_of_run hbehind
  obtain ⟨as, hrun⟩ := h.reachable
  obtain ⟨state', hstate', hidle⟩ := h.state
  obtain rfl := Control.loop.inj (hstate'.symm.trans hstate)
  have hrun₁ := hrun.append (hbefore.mono aside_configured)
  have hs₁ : Serving address m id s₁ := ⟨⟨_, hrun₁⟩, ⟨state', hwide.spared.control.trans hstate, hidle⟩,
    hwide.spared.close.trans h.close, hwide.spared.running.trans h.running, hwide.mem h.waits⟩
  obtain ⟨next, hnext₃, rfl⟩ := check_step hcheck
  have hnext : s₂.control = .check next := hwide'.spared.control.symm.trans hnext₃
  obtain ⟨notified, hids, hcompleted, hclose, hrunning, hnextIdle, hnearer⟩ := hs₁.handled hm
    (hwide.spared.control.trans hstate) hcalm hidle hread hnext
  have hclose₃ : s₃.impl.close = false := hwide'.spared.close.trans hclose
  rw [if_neg (by simp [hclose₃])]
  by_cases hnotified : id ∈ notified.map Message.id
  · obtain ⟨message, hmem, hid⟩ := List.mem_map.1 hnotified
    refine .inl ⟨message, ?_, hid⟩
    show message ∈ s₃.completed
    rw [hwide'.completed, hcompleted]
    exact List.mem_append_left _ hmem
  · have hwaits₂ : id ∈ s₂.impl.heldIds := by
      have hwaits := hs₁.waits
      rw [hids] at hwaits
      exact (List.mem_append.1 hwaits).resolve_left hnotified
    have hrun₂ : Run System.step Configured (System.configured address m) _ s₂ :=
      hrun₁.append (.cons (by simp [Configured]) hread (.nil s₂))
    have hrun₃ := hrun₂.append (hbehind.mono aside_configured)
    have hrun' := hrun₃.append (.cons (by simp [Configured]) hcheck (.nil _))
    rw [if_neg (by simp [hclose₃])] at hrun'
    refine .inr ⟨⟨⟨_, hrun'⟩, ⟨next, rfl, hnextIdle⟩, hclose₃, hwide'.spared.running.trans hrunning,
      hwide'.mem hwaits₂⟩, ?_⟩
    have hplace : s.impl.heldIds.idxOf id = notified.length + s₃.impl.heldIds.idxOf id := by
      rw [← hwide.idxOf h.waits, hids, List.idxOf_append_of_notMem hnotified, List.length_map,
        hwide'.idxOf hwaits₂]
    have hrank₃ := rank_lt (ranged_of_run hm hrun₃) next
    rw [hwide.spared.rank] at hnearer
    rw [← hwide'.spared.rank] at hnearer
    simp only [System.distance, hstate, hplace]
    rw [Nat.add_mul]
    rcases hnearer with hne | hlt
    · have hfront : roundBound m ≤ notified.length * roundBound m :=
        Nat.le_mul_of_pos_left _ (List.length_pos_iff.2 hne)
      omega
    · omega

theorem Serving.exists_round (h : Serving address m id s) : ∃ s', CalmRound s s' := by
  obtain ⟨state, hstate, hidle⟩ := h.state
  obtain ⟨as, hrun⟩ := h.reachable
  have hready := (consistent_of_configured hrun).sound.control
  rw [hstate] at hready
  obtain ⟨env, next, w, hcalm, hexec⟩ := exists_returning hready hidle
  have hread : s.step (.thread env) = some (s.runThread state env) := by rw [System.step, hstate]
  have hcontrol : (s.runThread state env).control = .check next := by
    simp [System.runThread, h.running, hexec, Control.after]
  exact ⟨_, .intro hstate (.nil s) hcalm hread (.nil _) (by rw [System.step, hcontrol])⟩

end Way

end EBusFsm

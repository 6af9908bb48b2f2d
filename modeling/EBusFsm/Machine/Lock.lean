import EBusFsm.Machine.Fairness
import EBusFsm.Machine.Range

/-!
# The way to the bus

A message waits until `monitorBus` finds the lock counter at zero. `lockCounter_iff` says that the counter
stays in its range in every run, and that on a bus that carries only synchronization bytes a message that
waits gets to `lockBus` (`Passes`), if and only if `set_lock_counter_max` was called with a number that is not
negative. From a negative number the guard `m_lock_counter != 0` counts down for ever.

The variant of the way is the value that the next synchronization byte leaves in the counter (`syncedLock`).
-/

namespace EBusFsm

open Prog

/-! ### The property -/

/-- What another thread does without a setter of the lock counter, `close` or the end of the object. -/
def Action.aside : Action → Bool
  | .openCall | .registerProcess | .setOpenCounterMax _ | .transmit _ | .enqueue _ | .awake _ _ => true
  | _ => false

/-- The bus carries only synchronization bytes. -/
def Env.SynOnly (env : Env) : Prop := env.reads ≠ [] ∧ ∀ r ∈ env.reads, r = .byte seqSyn

/-- `monitorBus` reads one byte of a bus that carries only synchronization bytes, and other threads act before
it and behind it. -/
inductive SynRound (s s' : System) : Prop
  | intro {as as' : List Action} {s₁ s₂ s₃ : System} {env : Env} (hstate : s.control = .loop .monitorBus)
      (hbefore : Run System.step (fun _ a => a.aside = true) s as s₁) (hbus : env.SynOnly)
      (hread : s₁.step (.thread env) = some s₂)
      (hbehind : Run System.step (fun _ a => a.aside = true) s₂ as' s₃) (hcheck : s₃.step .check = some s')

/-- On a bus that carries only synchronization bytes, at most `n` of them lead to `lockBus`. -/
def LeadsToLock (n : Nat) (s : System) : Prop := Leads SynRound (fun s => s.control = .loop .lockBus) n s

/-- A message that waits in `monitorBus` gets to `lockBus`, unless the machine is to close or to end. -/
def Passes (m : Int) (s : System) : Prop :=
  s.control = .loop .monitorBus → s.impl.held ≠ [] → s.impl.close = false → s.impl.running = true →
    LeadsToLock (max 2 m + 1).toNat s

/-! ### Rounds -/

/-- What a synchronization byte does when `monitorBus` goes on to `next`. -/
structure Synced (s : System) (next : State) (s' : System) : Prop where
  lock : s'.impl.lockCounter = syncedLock s.impl
  empty : s'.impl.sequence.seq = []
  close : s'.impl.close = s.impl.close
  running : s'.impl.running = s.impl.running
  held : s.impl.held ≠ [] → s'.impl.held ≠ []
  locks : s.impl.held ≠ [] → syncedLock s.impl = 0 → next = .lockBus
  stays : syncedLock s.impl ≠ 0 → next = .monitorBus

/-- What other threads leave alone. -/
structure Spared (s s' : System) : Prop where
  control : s'.control = s.control
  lock : s'.impl.lockCounter = s.impl.lockCounter
  sequence : s'.impl.sequence = s.impl.sequence
  close : s'.impl.close = s.impl.close
  running : s'.impl.running = s.impl.running
  held : s.impl.held ≠ [] → s'.impl.held ≠ []

section Round

variable {s s' s₁ s₂ : System} {next : State}

theorem Spared.refl (s : System) : Spared s s := ⟨rfl, rfl, rfl, rfl, rfl, id⟩

theorem Spared.trans (h : Spared s s₁) (h' : Spared s₁ s') : Spared s s' where
  control := h'.control.trans h.control
  lock := h'.lock.trans h.lock
  sequence := h'.sequence.trans h.sequence
  close := h'.close.trans h.close
  running := h'.running.trans h.running
  held := h'.held ∘ h.held

theorem Spared.syncedLock (h : Spared s s') : syncedLock s'.impl = syncedLock s.impl := by
  unfold EBusFsm.syncedLock countedLock
  rw [h.lock, h.sequence]

theorem spared_of_step {a : Action} (ha : a.aside = true) (hstep : s.step a = some s') : Spared s s' := by
  cases a with
  | openCall | registerProcess | setOpenCounterMax =>
    cases hstep
    exact ⟨rfl, rfl, rfl, rfl, rfl, id⟩
  | transmit message =>
    cases stepped_transmit hstep with
    | setting _ _ _ _ _ _ _ hsets => cases hsets
    | failed | called => exact ⟨rfl, rfl, rfl, rfl, rfl, id⟩
  | enqueue message =>
    simp only [System.step] at hstep
    split_ifs at hstep
    cases hstep
    refine ⟨rfl, rfl, rfl, rfl, rfl, fun h => ?_⟩
    rw [EbusImpl.held, ← List.append_assoc]
    exact List.append_ne_nil_of_left_ne_nil h _
  | awake call message =>
    simp only [System.step] at hstep
    split_ifs at hstep
    cases hstep
    exact ⟨rfl, rfl, rfl, rfl, rfl, id⟩
  | _ => cases ha

theorem spared_of_run {as : List Action} (hrun : Run System.step (fun _ a => a.aside = true) s as s') :
    Spared s s' :=
  hrun.invariant (I := Spared s) (fun _ _ _ h ha hstep => h.trans (spared_of_step ha hstep)) (.refl s)

theorem Synced.spared (h : Synced s₁ next s₂) (hbefore : Spared s s₁) (hbehind : Spared s₂ s') :
    Synced s next s' where
  lock := (hbehind.lock.trans h.lock).trans hbefore.syncedLock
  empty := by rw [hbehind.sequence, h.empty]
  close := (hbehind.close.trans h.close).trans hbefore.close
  running := (hbehind.running.trans h.running).trans hbefore.running
  held := hbehind.held ∘ h.held ∘ hbefore.held
  locks hheld hlock := h.locks (hbefore.held hheld) (hbefore.syncedLock.trans hlock)
  stays hlock := h.stays fun hzero => hlock (hbefore.syncedLock.symm.trans hzero)

/-- `monitorBus` reads a synchronization byte. -/
theorem exists_synced (hstate : s.control = .loop .monitorBus) (hrunning : s.impl.running = true) {env : Env}
    (hbus : env.SynOnly) :
    ∃ next s', s.step (.thread env) = some s' ∧ s'.control = .check next ∧ Synced s next s' := by
  let Q (next : State) (w : World) : Prop := ∀ s' : System, s'.impl = w.impl → Synced s next s'
  have hwp : wp monitorBus Q (fun _ _ => False) { impl := s.impl, env } := by
    obtain ⟨hne, hall⟩ := hbus
    obtain ⟨r, reads, hreads⟩ := List.exists_cons_of_ne_nil hne
    have hsyn : env.reads = .byte seqSyn :: reads := by
      rw [hreads, hall r (by simp [hreads])]
    rw [monitorBus, wp_bind, wp_read_byte 1 0 _ _ _ seqSyn reads hsyn, if_pos rfl]
    refine wp_handleSyn _ _ _ fun active queue evs seq hqueue hnone _ hseq s' himpl => ?_
    have hheld : s'.impl.held = s.impl.held := by
      rw [himpl]
      exact hqueue.held
    refine ⟨by rw [himpl]; rfl, by rw [himpl]; exact hseq, by rw [himpl]; rfl, by rw [himpl]; rfl, ?_, ?_, ?_⟩
    · rw [hheld]
      exact id
    · intro hwaits hzero
      refine if_pos ⟨?_, hzero⟩
      rw [Option.isSome_iff_ne_none]
      intro hactive
      rw [← hheld, himpl] at hwaits
      exact hwaits (by simp [EbusImpl.held, hactive, hnone hactive])
    · exact fun hlock => if_neg fun h => hlock h.2
  have hrun : wp (runState .monitorBus) Q (fun _ _ => False) { impl := s.impl, env } := by
    rw [runState, wp_tryCatch]
    exact wp_mono hwp (fun _ _ h => h) fun _ _ h => h.elim
  obtain ⟨next, w, hexec, hsynced⟩ := exists_of_wp hrun
  refine ⟨next, _, by rw [System.step, hstate], ?_, hsynced _ ?_⟩ <;>
    simp [System.runThread, hrunning, hexec, Control.after]

/-- The thread ends instead of reading. -/
theorem stopped_of_step {env : Env} {state : State} (hstate : s.control = .loop state)
    (hrunning : s.impl.running = false) (hstep : s.step (.thread env) = some s') : s'.control = .stopped := by
  rw [System.step, hstate] at hstep
  obtain rfl := Option.some_inj.1 hstep
  simp [System.runThread, hrunning]

theorem SynRound.state (h : SynRound s s') : s.control = .loop .monitorBus := by
  cases h with
  | intro hstate => exact hstate

/-- A round on a bus that carries only synchronization bytes. -/
theorem SynRound.synced (h : SynRound s s') : s.impl.running = true ∧ ∃ next,
    s'.control = .loop (if s.impl.close then .idleSystem else next) ∧ Synced s next s' := by
  cases h with
  | @intro _ _ s₁ s₂ s₃ _ hstate hbefore hbus hread hbehind hcheck =>
    have hspared := spared_of_run hbefore
    have hspared' := spared_of_run hbehind
    have hstate₁ := hspared.control.trans hstate
    by_cases hrunning : s.impl.running = true
    · obtain ⟨next, s₂', hread', hcontrol, hsynced⟩ :=
        exists_synced hstate₁ (hspared.running.trans hrunning) hbus
      obtain rfl := Option.some_inj.1 (hread'.symm.trans hread)
      simp only [System.step, hspared'.control.trans hcontrol] at hcheck
      obtain rfl := Option.some_inj.1 hcheck
      obtain ⟨hlock, hempty, hclose, hrun, hheld, hlocks, hstays⟩ := hsynced.spared hspared hspared'
      refine ⟨hrunning, next, ?_, hlock, hempty, hclose, hrun, hheld, hlocks, hstays⟩
      rw [hclose]
    · have hstopped := stopped_of_step hstate₁ (hspared.running.trans (eq_false_of_ne_true hrunning)) hread
      simp [System.step, hspared'.control.trans hstopped] at hcheck

theorem exists_synRound (hstate : s.control = .loop .monitorBus) (hrunning : s.impl.running = true) :
    ∃ s', SynRound s s' := by
  have hbus : Env.SynOnly { reads := [.byte seqSyn] } := ⟨by simp, by simp⟩
  obtain ⟨next, s₂, hread, hcontrol, -⟩ := exists_synced hstate hrunning hbus
  have hcheck : s₂.step .check =
      some { s₂ with control := .loop (if s₂.impl.close then .idleSystem else next) } := by
    simp only [System.step, hcontrol]
  exact ⟨_, .intro hstate (.nil s) hbus hread (.nil s₂) hcheck⟩

end Round

/-! ### The way -/

/-- A message waits in `monitorBus`, and the lock counter is not negative. -/
structure Poised (s : System) : Prop where
  state : s.control = .loop .monitorBus
  held : s.impl.held ≠ []
  close : s.impl.close = false
  running : s.impl.running = true
  low : 0 ≤ syncedLock s.impl

section Way

variable {s s' : System}

/-- The next synchronization byte only counts. -/
theorem syncedLock_of_empty {impl : EbusImpl} (h : impl.sequence.seq = []) :
    syncedLock impl = countedLock impl := by
  have hsize : impl.sequence.size = 0 := by rw [Sequence.size, h, List.length_nil]
  rw [syncedLock, if_neg (not_not.2 hsize)]

/-- Behind a round the message is on the bus, or one synchronization byte nearer to it. -/
theorem Poised.round (h : Poised s) (hround : SynRound s s') :
    s'.control = .loop .lockBus ∨ Poised s' ∧ (syncedLock s'.impl).toNat < (syncedLock s.impl).toNat := by
  obtain ⟨-, next, hcontrol, hsynced⟩ := hround.synced
  rw [if_neg (by simp [h.close])] at hcontrol
  by_cases hlock : syncedLock s.impl = 0
  · rw [hsynced.locks h.held hlock] at hcontrol
    exact .inl hcontrol
  · rw [hsynced.stays hlock] at hcontrol
    have hlow := h.low
    have hcount : syncedLock s'.impl = syncedLock s.impl - 1 := by
      rw [syncedLock_of_empty hsynced.empty, countedLock, hsynced.lock, if_pos hlock]
    refine .inr ⟨⟨hcontrol, hsynced.held h.held, hsynced.close.trans h.close,
      hsynced.running.trans h.running, ?_⟩, ?_⟩ <;> omega

theorem Poised.leads (h : Poised s) {n : Nat} (hn : (syncedLock s.impl).toNat < n) : LeadsToLock n s :=
  leads_of_variant (I := Poised) (fun s => (syncedLock s.impl).toNat)
    (fun _ hs => ⟨exists_synRound hs.state hs.running, fun _ hround => hs.round hround⟩) h hn

theorem Ranged.syncedLock {m : Int} {impl : EbusImpl} (h : Ranged m impl) :
    0 ≤ syncedLock impl ∧ syncedLock impl ≤ max 2 m := by
  obtain ⟨-, hlow, hhigh⟩ := h
  unfold EBusFsm.syncedLock decodedLock countedLock
  split_ifs <;> omega

theorem Ranged.passes {m : Int} (h : Ranged m s.impl) : Passes m s := by
  intro hstate hheld hclose hrunning
  obtain ⟨hlow, hhigh⟩ := h.syncedLock
  exact Poised.leads ⟨hstate, hheld, hclose, hrunning, hlow⟩ (by omega)

/-- A machine that is to close or to end leaves `monitorBus` another way. -/
theorem LeadsToLock.open_running {n : Nat} (h : LeadsToLock n s) (hstate : s.control = .loop .monitorBus) :
    s.impl.close = false ∧ s.impl.running = true := by
  obtain ⟨k, s', -, hround, hleads⟩ := h.exists_round (by simp [hstate])
  obtain ⟨hrunning, next, hcontrol, -⟩ := hround.synced
  refine ⟨?_, hrunning⟩
  by_contra hclose
  rw [if_pos (eq_true_of_ne_false hclose)] at hcontrol
  obtain ⟨_, _, -, hround', -⟩ := hleads.exists_round (by simp [hcontrol])
  cases hcontrol.symm.trans hround'.state

/-- From a negative counter synchronization bytes lead nowhere. -/
theorem not_leadsToLock (hstate : s.control = .loop .monitorBus) (hlock : s.impl.lockCounter < 0)
    (hempty : s.impl.sequence.seq = []) (n : Nat) : ¬ LeadsToLock n s := by
  induction n generalizing s with
  | zero =>
    intro h
    cases hstate.symm.trans h
  | succ n ih =>
    intro h
    obtain ⟨hclose, -⟩ := h.open_running hstate
    obtain ⟨k, s', hk, hround, hleads⟩ := h.exists_round (by simp [hstate])
    obtain rfl := Nat.succ_injective hk
    obtain ⟨-, next, hcontrol, hsynced⟩ := hround.synced
    have hcount : syncedLock s.impl = s.impl.lockCounter - 1 := by
      rw [syncedLock_of_empty hempty, countedLock, if_pos hlock.ne]
    rw [if_neg (by simp [hclose]), hsynced.stays (by omega)] at hcontrol
    refine ih hcontrol ?_ hsynced.empty hleads
    rw [hsynced.lock]
    omega

end Way

/-! ### Runs -/

/-- Once the device is open, the counter is at its maximum. -/
theorem exists_opened (address : Byte) (m : Int) :
    ∃ s, execute System.step (fun _ => setsNothing) (System.configured address m) (handlers [[seqSyn]]) = some s ∧
      s.control = .loop .monitorBus ∧ s.impl.lockCounter = m ∧ s.impl.sequence.seq = [] :=
  ⟨_, rfl, rfl, rfl, rfl⟩

/-- **The lock counter stays in its range and lets a message through**, in every run behind
`set_lock_counter_max(m)`, if and only if `m` is not negative; and no other state of `monitorBus` leads to
`lockBus` than those that `Passes` names. -/
theorem lockCounter_iff (address : Byte) (m : Int) :
    ((∀ as s, Run System.step (fun _ a => ∀ value, a ≠ .setLockCounterMax value)
        (System.configured address m) as s →
      (0 ≤ s.impl.lockCounter ∧ s.impl.lockCounter ≤ max 2 m) ∧ Passes m s) ↔ 0 ≤ m) ∧
    ∀ n s, s.control = .loop .monitorBus → LeadsToLock n s →
      s.impl.close = false ∧ s.impl.running = true := by
  refine ⟨⟨fun h => ?_, fun hm as s hrun => ?_⟩, fun n s hstate hleads => hleads.open_running hstate⟩
  · obtain ⟨s, hs, -, hlock, -⟩ := exists_opened address m
    obtain ⟨⟨hlow, -⟩, -⟩ := h _ s (run_of_execute ne_set_of_setsNothing hs)
    rwa [hlock] at hlow
  · have hranged := ranged_of_run hm hrun
    exact ⟨⟨hranged.low, hranged.high⟩, hranged.passes⟩

/-- The maximum is minus one: behind the open of the device the counter is minus one too, and a broadcast that
waits does not get to the bus by any number of synchronization bytes. -/
theorem lockCounter_negative_sample :
    ∃ s, execute System.step (fun _ => setsNothing) (System.configured 0xff (-1)) (handlers [[seqSyn]] ++
        [.transmit [0xfe, 0xb5, 0x05, 0x01, 0x27], .enqueue broadcastMessage]) = some s ∧
      s.impl.lockCounter = -1 ∧ s.impl.held = [broadcastMessage] ∧ s.control = .loop .monitorBus ∧
      (∀ n, ¬ LeadsToLock n s) ∧ ¬ Passes (-1) s := by
  let as : List Action := handlers [[seqSyn]] ++
    [.transmit [0xfe, 0xb5, 0x05, 0x01, 0x27], .enqueue broadcastMessage]
  obtain ⟨s, hs, heq⟩ := Option.map_eq_some_iff.1
    (show (execute System.step (fun _ => setsNothing) (System.configured 0xff (-1)) as).map (fun s =>
      ((s.impl.lockCounter, s.impl.held, s.control), s.impl.sequence.seq, s.impl.close, s.impl.running)) =
      some ((-1, [broadcastMessage], .loop .monitorBus), [], false, true) by decide +kernel)
  obtain ⟨hlock, hheld, hcontrol, hempty, hclose, hrunning⟩ : s.impl.lockCounter = -1 ∧
      s.impl.held = [broadcastMessage] ∧ s.control = .loop .monitorBus ∧ s.impl.sequence.seq = [] ∧
      s.impl.close = false ∧ s.impl.running = true := by simpa [and_assoc] using heq
  have hnever : ∀ n, ¬ LeadsToLock n s := not_leadsToLock hcontrol (by simp [hlock]) hempty
  exact ⟨s, hs, hlock, hheld, hcontrol, hnever, fun h =>
    hnever _ (h hcontrol (by simp [hheld]) hclose hrunning)⟩

end EBusFsm

import EBusFsm.Machine.Invariant

/-!
# The spacing of bus accesses

The lock counter keeps this participant from taking the bus again at once: a reset, and an arbitration
that is lost to another priority class, set it to `m_lock_counter_max`, and `monitorBus` counts it down with
every synchronization byte. `lockBus_spaced` says what this is worth: from any state in which the counter is
at its maximum (`LockSet`), wherever the machine goes until `lockBus` is entered, `monitorBus` reads at
least that many synchronization bytes, and at least one; and the last thing on the bus before `lockBus` is
the synchronization byte that `monitorBus` read.

The proof counts: a round that does not count leaves the counter where it is or raises it, so the counter
and the synchronization bytes read together never fall below the maximum.
-/

namespace EBusFsm

open Prog

/-! ### The property -/

/-- The lock counter is at its maximum, and the machine is not in `lockBus`: a reset leaves the machine so,
and so does an arbitration lost to another low nibble. -/
structure System.LockSet (s : System) : Prop where
  counter : s.impl.lockCounter = s.impl.lockCounterMax
  outside : s.control ≠ .check .lockBus ∧ s.control ≠ .loop .lockBus

/-- The bytes that `monitorBus` reads in a step. -/
def System.monitored (s : System) (a : Action) : List Byte :=
  if s.control = .loop .monitorBus then
    (s.step a).elim [] fun s' => gotBytes (s'.log.drop s.log.length)
  else []

/-- The number of synchronization bytes that `monitorBus` reads in a run. -/
def synsMonitored (history : List (System × Action)) : Nat :=
  (history.flatMap fun p => p.1.monitored p.2).count seqSyn

/-- The last round was one of `monitorBus`, and it read a synchronization byte and nothing else. -/
def JustSynced (history : List (System × Action)) : Prop :=
  ∃ before s env after, history = before ++ (s, .thread env) :: after ∧
    s.control = .loop .monitorBus ∧ s.monitored (.thread env) = [seqSyn] ∧
    ∀ p ∈ after, ∀ env, p.2 ≠ .thread env

/-! ### Rounds -/

section Round

variable {impl impl' : EbusImpl} {env : Env} {state : State} {result : Except Stop State}
  {evs : List Event}

/-- What a round that goes on to the state `next` does with the lock counter. -/
inductive Locks (impl : EbusImpl) (state : State) (impl' : EbusImpl) (evs : List Event) : State → Prop
  | set {next : State} (hnext : next ≠ .lockBus) (hlock : impl'.lockCounter = impl'.lockCounterMax) :
      Locks impl state impl' evs next
  | kept {next : State} (hnext : next ≠ .lockBus) (hlock : impl'.lockCounter = impl.lockCounter) :
      Locks impl state impl' evs next
  | fit {next : State} (hnext : next ≠ .lockBus) (hstate : state = .lockBus) (hlock : impl'.lockCounter = 1) :
      Locks impl state impl' evs next
  | counted {next : State} (hstate : state = .monitorBus) (hgot : gotBytes evs = [seqSyn])
      (hlock : impl.lockCounter - 1 ≤ impl'.lockCounter) : Locks impl state impl' evs next

theorem Overheard.gotBytes_eq {seq : Sequence} {evs : List Event} (h : Overheard seq evs) :
    gotBytes evs = [] := by
  cases h <;> rfl

/-- A synchronization byte takes at most one from the counter. -/
theorem sub_one_le_syncedLock (impl : EbusImpl) : impl.lockCounter - 1 ≤ syncedLock impl := by
  have hcounted : impl.lockCounter - 1 ≤ countedLock impl := by
    unfold countedLock
    split_ifs <;> omega
  have hdecoded : countedLock impl ≤ decodedLock impl.sequence (countedLock impl) := by
    unfold decodedLock
    split_ifs <;> omega
  unfold syncedLock
  split_ifs <;> omega

theorem Handled.locks (h : Handled impl env state result impl' evs) :
    (Control.after result).Holds (Locks impl state impl' evs) := by
  cases h with
  | idle hresult => rcases hresult with ⟨-, rfl⟩ | ⟨-, rfl⟩ <;> exact .set nofun rfl
  | opened | oversize | responded | responseOversize | freed | unopened => exact .set nofun rfl
  | device _ he => rcases he with rfl | rfl <;> exact .set nofun rfl
  | @lost _ qq b =>
    by_cases hnibble : b &&& 0x0f ≠ qq &&& 0x0f
    · exact .set nofun (if_pos hnibble)
    · exact .fit nofun rfl (if_neg hnibble)
  | synced _ _ hevs =>
    have hgot := hevs.gotBytes_eq
    exact .counted rfl (by rw [gotBytes_got, hgot]) (sub_one_le_syncedLock impl)
  | oversizeAlone | misread | hung => trivial
  | acked =>
    refine .kept ?_ rfl
    split_ifs <;> exact nofun
  | _ => exact .kept nofun rfl

end Round

/-! ### Histories -/

theorem synsMonitored_snoc (history : List (System × Action)) (s : System) (a : Action) :
    synsMonitored (history ++ [(s, a)]) = synsMonitored history + (s.monitored a).count seqSyn := by
  simp [synsMonitored]

theorem synsMonitored_le_snoc (history : List (System × Action)) (s : System) (a : Action) :
    synsMonitored history ≤ synsMonitored (history ++ [(s, a)]) := by
  rw [synsMonitored_snoc]
  exact Nat.le_add_right _ _

/-- The bytes of a round of `monitorBus`. -/
theorem monitored_of_log {s s' : System} {a : Action} {evs : List Event}
    (hstate : s.control = .loop .monitorBus) (hstep : s.step a = some s') (hlog : s'.log = s.log ++ evs) :
    s.monitored a = gotBytes evs := by
  rw [System.monitored, if_pos hstate, hstep, Option.elim_some, hlog, List.drop_left]

/-- A step of another thread, or the test behind a handler, does not disturb what was just read. -/
theorem JustSynced.snoc {history : List (System × Action)} (h : JustSynced history) (s : System)
    {a : Action} (ha : ∀ env, a ≠ .thread env) : JustSynced (history ++ [(s, a)]) := by
  obtain ⟨before, s₁, env, after, rfl, hstate, hread, hafter⟩ := h
  refine ⟨before, s₁, env, after ++ [(s, a)], ?_, hstate, hread, fun p hp => ?_⟩
  · rw [List.append_assoc, List.cons_append]
  · rcases List.mem_append.1 hp with hp | hp
    · exact hafter p hp
    · rw [List.mem_singleton.1 hp]
      exact ha

/-- The counter and the synchronization bytes read make up the maximum, and one was read before `lockBus`. -/
def Owed (m : Int) (n : Nat) (lock : Int) (state : State) : Prop :=
  m ≤ n + lock ∧ (state = .lockBus → 0 < n)

theorem Owed.mono {m : Int} {n n' : Nat} {lock lock' : Int} {state : State} (h : Owed m n lock state)
    (hn : n ≤ n') (hlock : lock ≤ lock') : Owed m n' lock' state := by
  obtain ⟨hsum, hlead⟩ := h
  refine ⟨?_, fun hstate => ?_⟩
  · omega
  · have hpos := hlead hstate
    omega

/-- What the lock counter and the history say about each other. -/
structure Spaced (m : Int) (history : List (System × Action)) (s : System) : Prop where
  max : s.impl.lockCounterMax = m
  owed : s.control.Holds (Owed m (synsMonitored history) s.impl.lockCounter)

/-- `lockBus` is entered behind a synchronization byte. -/
def Led (history : List (System × Action)) (s : System) : Prop :=
  s.control.Holds fun state => state = .lockBus → JustSynced history

theorem Action.ne_thread_of_sets {a : Action} (h : a.sets = true) (env : Env) : a ≠ .thread env := by
  rintro rfl
  exact absurd h Bool.false_ne_true

section Step

variable {address : Byte} {m : Int} {history : List (System × Action)} {s s' : System} {a : Action}

/-- What a round adds to the history. -/
theorem Spaced.handled {env : Env} {state : State} {result : Except Stop State} {impl' : EbusImpl}
    {evs : List Event} (hconsistent : Consistent address s) (h : Spaced m history s)
    (hstate : s.control = .loop state) (hh : Handled s.impl env state result impl' evs)
    (hmonitored : state = .monitorBus → s.monitored (.thread env) = gotBytes evs) :
    (Control.after result).Holds
      (Owed m (synsMonitored (history ++ [(s, .thread env)])) impl'.lockCounter) := by
  have howed := h.owed
  rw [hstate] at howed
  have hle := synsMonitored_le_snoc history s (.thread env)
  have hmax := hh.lockCounterMax.trans h.max
  have hfound := hconsistent.kept hstate
  refine hh.locks.mono fun next hlocks => ?_
  cases hlocks with
  | set hnext hlock =>
    refine ⟨?_, fun heq => absurd heq hnext⟩
    omega
  | kept hnext hlock =>
    refine ⟨?_, fun heq => absurd heq hnext⟩
    have hsum := howed.1
    omega
  | fit hnext hfit hlock =>
    refine ⟨?_, fun heq => absurd heq hnext⟩
    subst hfit
    have hzero : s.impl.lockCounter = 0 := hfound.unlocked
    have hsum := howed.1
    omega
  | counted hmonitor hgot hlock =>
    have hone : (s.monitored (.thread env)).count seqSyn = 1 := by
      rw [hmonitored hmonitor, hgot]
      decide
    rw [synsMonitored_snoc, hone]
    have hsum := howed.1
    refine ⟨?_, fun _ => Nat.succ_pos _⟩
    push_cast
    omega

theorem Spaced.step (hconsistent : Consistent address s) (h : Spaced m history s)
    (hset : ∀ value, a ≠ .setLockCounterMax value) (hstep : s.step a = some s') :
    Spaced m (history ++ [(s, a)]) s' := by
  have hle := synsMonitored_le_snoc history s a
  have howed := h.owed
  have hsnoc : s.control.Holds (Owed m (synsMonitored (history ++ [(s, a)])) s.impl.lockCounter) :=
    howed.mono fun _ ho => ho.mono hle le_rfl
  cases stepped hconsistent.sound.control hstep with
  | setting _ _ _ _ _ lockMax _ _ _ _ _ hlock =>
    exact ⟨(hlock.resolve_right (hset lockMax)).trans h.max, hsnoc⟩
  | failed | called | enqueued | awoken => exact ⟨h.max, hsnoc⟩
  | stopped => exact ⟨h.max, trivial⟩
  | @thread state env _ _ evs hstate hh =>
    refine ⟨hh.lockCounterMax.trans h.max, h.handled hconsistent hstate hh fun hmonitor => ?_⟩
    rw [hmonitor] at hstate
    exact monitored_of_log hstate hstep rfl
  | @check state hstate =>
    refine ⟨h.max, ?_⟩
    rw [hstate] at hsnoc
    show (Control.loop (if s.impl.close then .idleSystem else state)).Holds _
    split_ifs
    · exact ⟨hsnoc.1, nofun⟩
    · exact hsnoc
  | wake hwait =>
    rw [hwait] at hsnoc
    exact ⟨h.max, hsnoc⟩

theorem led_init (address : Byte) : Led [] (System.init address) := by
  simp [Led, System.init, Control.Holds]

theorem Led.step (hsound : Sound address s) (h : Led history s) (hstep : s.step a = some s') :
    Led (history ++ [(s, a)]) s' := by
  unfold Led at h ⊢
  have hsnoc (hno : ∀ env, a ≠ .thread env) :
      s.control.Holds fun state => state = .lockBus → JustSynced (history ++ [(s, a)]) :=
    h.mono fun _ hled heq => (hled heq).snoc s hno
  cases stepped hsound.control hstep with
  | setting _ _ _ _ _ _ _ hsets => exact hsnoc (Action.ne_thread_of_sets hsets)
  | failed | called | enqueued | awoken => exact hsnoc (by simp)
  | stopped => trivial
  | @thread state env _ _ evs hstate hh =>
    refine hh.locks.mono fun next hlocks heq => ?_
    cases hlocks with
    | set hnext | kept hnext | fit hnext => exact absurd heq hnext
    | counted hmonitor hgot =>
      rw [hmonitor] at hstate
      refine ⟨history, s, env, [], rfl, hstate, ?_, fun p hp => absurd hp List.not_mem_nil⟩
      rw [monitored_of_log hstate hstep rfl, hgot]
  | @check state hstate =>
    have hled := hsnoc (by simp)
    rw [hstate] at hled
    show (Control.loop (if s.impl.close then .idleSystem else state)).Holds _
    split_ifs
    · exact nofun
    · exact hled
  | wake hwait =>
    have hled := hsnoc (by simp)
    rw [hwait] at hled
    exact hled

end Step

/-! ### Runs -/

theorem led_of_run {address : Byte} {guard : System → Action → Prop} {as : List Action} {s : System}
    (hrun : Run System.step guard (System.init address) as s) :
    Led (visited System.step (System.init address) as) s :=
  (hrun.history (I := fun history s => Sound address s ∧ Led history s)
    (fun _ _ _ _ h _ hstep => ⟨h.1.step hstep, h.2.step h.1 hstep⟩) ⟨sound_init address, led_init address⟩).2

theorem System.LockSet.spaced {s : System} (h : s.LockSet) : Spaced s.impl.lockCounterMax [] s where
  max := rfl
  owed := by
    obtain ⟨hlock, hcheck, hloop⟩ := h
    have hsum : s.impl.lockCounterMax ≤ ((synsMonitored [] : Nat) : Int) + s.impl.lockCounter := by
      rw [hlock]
      exact (Int.zero_add _).ge
    cases hcontrol : s.control with
    | loop state => exact ⟨hsum, fun heq => absurd (hcontrol.trans (congrArg _ heq)) hloop⟩
    | check state => exact ⟨hsum, fun heq => absurd (hcontrol.trans (congrArg _ heq)) hcheck⟩
    | waiting => exact ⟨hsum, nofun⟩
    | _ => trivial

theorem spaced_of_run {address : Byte} {s₁ s : System} {as : List Action}
    (hconsistent : Consistent address s₁) (hset : s₁.LockSet)
    (hrun : Run System.step (fun _ a => ∀ value, a ≠ .setLockCounterMax value) s₁ as s) :
    Spaced s₁.impl.lockCounterMax (visited System.step s₁ as) s :=
  (hrun.history (I := fun history s => Consistent address s ∧ Spaced s₁.impl.lockCounterMax history s)
    (fun _ _ _ _ h hguard hstep => ⟨h.1.step hstep, h.2.step h.1 hguard hstep⟩)
    ⟨hconsistent, hset.spaced⟩).2

/-- **The bus is left alone for the lock counter**: whenever `lockBus` is entered, the last round was one of
`monitorBus` that read a synchronization byte, and from any earlier state in which the lock counter was at
its maximum, since when the maximum was not changed, `monitorBus` read as many synchronization bytes as the
maximum says, and at least one. -/
theorem lockBus_spaced {address : Byte} {guard : System → Action → Prop} {as₁ as₂ : List Action}
    {s₁ s : System} (hrun₁ : Run System.step guard (System.init address) as₁ s₁)
    (hrun₂ : Run System.step (fun _ a => ∀ value, a ≠ .setLockCounterMax value) s₁ as₂ s)
    (hstate : s.control = .loop .lockBus) :
    JustSynced (visited System.step (System.init address) (as₁ ++ as₂)) ∧
      (s₁.LockSet → max 1 s₁.impl.lockCounterMax ≤ synsMonitored (visited System.step s₁ as₂)) := by
  have hconsistent := consistent_of_run hrun₁
  have hrun : Run System.step (fun _ _ => True) (System.init address) (as₁ ++ as₂) s :=
    (hrun₁.mono fun _ _ _ => trivial).append (hrun₂.mono fun _ _ _ => trivial)
  refine ⟨?_, fun hset => ?_⟩
  · have hled := led_of_run hrun
    unfold Led at hled
    rw [hstate] at hled
    exact hled rfl
  · have hspaced := spaced_of_run hconsistent hset hrun₂
    have howed := hspaced.owed
    rw [hstate] at howed
    have hzero : s.impl.lockCounter = 0 := ((consistent_of_run hrun).kept hstate).unlocked
    obtain ⟨hsum, hpos⟩ := howed
    have hpos' := hpos rfl
    omega

def setsNothing : Action → Bool
  | .setLockCounterMax _ => false
  | _ => true

theorem ne_set_of_setsNothing (_ : System) (a : Action) (h : setsNothing a = true) (value : Int) :
    a ≠ .setLockCounterMax value := by
  rintro rfl
  exact absurd h Bool.false_ne_true

/-- The participant `ff` opens the device with the maximum two, and enters `lockBus` for a broadcast. -/
theorem lockBus_spaced_sample :
    ∃ s₁, execute System.step (fun _ _ => true) (System.init 0xff)
        (.setLockCounterMax 2 :: handlers [[0xaa]]) = some s₁ ∧
      2 ≤ synsMonitored (visited System.step s₁
        (.transmit [0xfe, 0xb5, 0x05, 0x01, 0x27] :: .enqueue broadcastMessage ::
          handlers [[0xaa], [0xaa]])) := by
  let opening : List Action := .setLockCounterMax 2 :: handlers [[0xaa]]
  let sending : List Action :=
    .transmit [0xfe, 0xb5, 0x05, 0x01, 0x27] :: .enqueue broadcastMessage :: handlers [[0xaa], [0xaa]]
  obtain ⟨s₁, hs₁, heq⟩ := Option.map_eq_some_iff.1
    (show (execute System.step (fun _ _ => true) (System.init 0xff) opening).map (fun s =>
      (s.impl.lockCounter, s.impl.lockCounterMax, s.control)) = some (2, 2, .loop .monitorBus) by decide +kernel)
  obtain ⟨hlock, hmax, hcontrol⟩ : s₁.impl.lockCounter = 2 ∧ s₁.impl.lockCounterMax = 2 ∧
      s₁.control = .loop .monitorBus := by simpa using heq
  have hsending : ((execute System.step (fun _ _ => true) (System.init 0xff) opening).bind fun s =>
      (execute System.step (fun _ => setsNothing) s sending).map System.control) = some (.loop .lockBus) := by
    decide +kernel
  rw [hs₁, Option.bind_some] at hsending
  obtain ⟨s, hs, hstate⟩ := Option.map_eq_some_iff.1 hsending
  have hrun₁ : Run System.step (fun _ _ => True) (System.init 0xff) opening s₁ :=
    run_of_execute (fun _ _ _ => trivial) hs₁
  have hspaced := (lockBus_spaced hrun₁ (run_of_execute ne_set_of_setsNothing hs) hstate).2
    ⟨hlock.trans hmax.symm, by rw [hcontrol]; exact nofun, by rw [hcontrol]; exact nofun⟩
  rw [hmax] at hspaced
  refine ⟨s₁, hs₁, ?_⟩
  exact_mod_cast hspaced

end EBusFsm

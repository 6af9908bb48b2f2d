import EBusFsm.Machine.Service
import EBusFsm.Machine.Commands

/-!
# The end of the object

`~EbusImpl` calls `close`, polls `m_online` until it is clear, clears `m_running`, notifies the thread and
joins it. The thread goes on meanwhile: the poll sees `m_online` between two of its handlers or not at all.

`destructor_ends` says that this ends from every state a run reaches, if the handlers return and no earlier `open`
is still pending. The flag that such an `open` left in `Notify` outlives every `idleSystem` that does not have to
wait, so the machine passes through `idleSystem` and opens the device again: `destructor_polls` says that the
destructor may then poll for ever. The measure of the way to the end is the number of steps that the thread still
needs to the `wait` of `idleSystem`, and to the end of `run`.
-/

namespace EBusFsm

open Prog

/-! ### The destructor -/

/-- Where `~EbusImpl` is. -/
inductive Stage
  | close
  /-- In `while (m_online)`. -/
  | offline
  /-- Behind the loop, before `m_running = false`. -/
  | halt
  | notify
  | join
  | ended
  deriving DecidableEq, Repr

/-- A machine with its destructor. -/
structure Ending where
  system : System
  stage : Stage
  deriving DecidableEq, Repr

/-- One step of `~EbusImpl`, if it does not have to wait. -/
def Ending.destroy (e : Ending) : Option Ending :=
  let s := e.system
  match e.stage with
  | .close => some ⟨{ s with impl := { s.impl with close := true } }, .offline⟩
  | .offline => if s.impl.online then none else some ⟨s, .halt⟩
  | .halt => some ⟨{ s with impl := { s.impl with running := false } }, .notify⟩
  | .notify => some ⟨{ s with impl := { s.impl with notify := true } }, .join⟩
  | .join => if s.control = .stopped then some ⟨s.drain, .ended⟩ else none
  | .ended => none

/-- The destructor has returned. -/
structure Ending.Done (e : Ending) : Prop where
  stage : e.stage = .ended
  joined : e.system.control = .stopped
  drained : e.system.impl.messageQueue = []

/-! ### Rounds -/

/-- A step of the thread that comes to an end: the device does not keep the handler for ever, nothing escapes
`run`, and a wake-up is not spurious. -/
structure Alive (s : System) (a : Action) : Prop where
  own : a.own = true
  prompted : a = .wake → s.impl.notify = true
  returns : ∀ s', s.step a = some s' → s'.control ≠ .hung ∧ s'.control ≠ .crashed

/-- The thread has ended, or waits for `open`. -/
def System.Rests (s : System) : Prop :=
  s.control = .stopped ∨ s.control = .waiting ∧ s.impl.notify = false

/-- The destructor tries to go on once, with steps of the thread before it and behind it. The thread makes a
step unless it rests. -/
inductive EndingRound (e e' : Ending) : Prop
  | intro {as as' : List Action} {s₁ s₂ : System} {e₁ : Ending}
      (hbefore : Run System.step Alive e.system as s₁)
      (htry : e₁ = (Ending.destroy ⟨s₁, e.stage⟩).getD ⟨s₁, e.stage⟩)
      (hbehind : Run System.step Alive e₁.system as' s₂) (hend : e' = ⟨s₂, e₁.stage⟩)
      (hfair : as ++ as' = [] → s₂.Rests)

/-- A round in which the thread makes a step. -/
inductive BusyRound (e e' : Ending) : Prop
  | intro {as as' : List Action} {s₁ s₂ : System} {e₁ : Ending}
      (hbefore : Run System.step Alive e.system as s₁)
      (htry : e₁ = (Ending.destroy ⟨s₁, e.stage⟩).getD ⟨s₁, e.stage⟩)
      (hbehind : Run System.step Alive e₁.system as' s₂) (hend : e' = ⟨s₂, e₁.stage⟩)
      (hbusy : as ++ as' ≠ [])

theorem BusyRound.ending {e e' : Ending} (h : BusyRound e e') : EndingRound e e' := by
  obtain ⟨hbefore, htry, hbehind, hend, hbusy⟩ := h
  exact .intro hbefore htry hbehind hend fun hnil => absurd hnil hbusy

/-- The thread is in the loop of `run`. -/
structure System.Goes (s : System) : Prop where
  hung : s.control ≠ .hung
  crashed : s.control ≠ .crashed
  stopped : s.control ≠ .stopped

/-! ### What the thread does meanwhile -/

/-- The machine does not wait for `open` while it is online. -/
def System.Dormant (s : System) : Prop := s.control = .waiting → s.impl.online = false

/-- A state from which the thread goes on. -/
structure Live (address : Byte) (s : System) : Prop where
  consistent : Consistent address s
  dormant : s.Dormant
  running : s.impl.running = true
  goes : s.Goes

theorem Action.own_cases {a : Action} (h : a.own = true) : (∃ env, a = .thread env) ∨ a = .check ∨ a = .wake := by
  cases a <;> simp [own] at h ⊢

section Round

variable {address : Byte} {s s' : System} {a : Action}

/-- The step tells that the thread goes on. -/
theorem Alive.of_step (hown : a.own = true) (hprompted : a = .wake → s.impl.notify = true)
    (hstep : s.step a = some s') (hhung : s'.control ≠ .hung) (hcrashed : s'.control ≠ .crashed) : Alive s a :=
  ⟨hown, hprompted, fun _ h => Option.some_inj.1 (hstep.symm.trans h) ▸ ⟨hhung, hcrashed⟩⟩

theorem System.Dormant.step (hsound : Sound address s) (h : s.Dormant) (hstep : s.step a = some s') :
    s'.Dormant := by
  cases stepped hsound.control hstep with
  | setting | enqueued | failed | called | awoken => exact h
  | stopped | check | wake =>
    intro hwait
    cases hwait
  | thread hstate hh =>
    intro hwait
    rw [(hh.not_blocked hwait).2.2]
    rfl

theorem dormant_of_run {guard : System → Action → Prop} {as : List Action}
    (hrun : Run System.step guard (System.init address) as s) : s.Dormant := by
  refine (hrun.invariant (I := fun s => Consistent address s ∧ s.Dormant) ?_ ?_).2
  · rintro s a s' ⟨hconsistent, hdormant⟩ - hstep
    exact ⟨hconsistent.step hstep, hdormant.step hconsistent.sound hstep⟩
  · refine ⟨consistent_init address, fun hwait => ?_⟩
    cases hwait

theorem after_ne_stopped (result : Except Stop State) : Control.after result ≠ .stopped := by
  rcases result with e | next
  · cases e <;> simp [Control.after]
  · simp [Control.after]

/-- The thread goes on as long as `m_running` is set. -/
theorem Live.step (h : Live address s) (ha : Alive s a) (hstep : s.step a = some s') : Live address s' := by
  obtain ⟨hhung, hcrashed⟩ := ha.returns s' hstep
  have hconsistent := h.consistent.step hstep
  have hdormant := h.dormant.step h.consistent.sound hstep
  have hown := ha.own
  cases stepped h.consistent.sound.control hstep with
  | setting _ _ _ _ _ _ _ hsets => cases a <;> simp [Action.own, Action.sets] at hown hsets
  | failed | called | enqueued | awoken => exact nomatch hown
  | stopped _ hrunning => exact absurd (hrunning.symm.trans h.running) Bool.false_ne_true
  | @thread _ _ result _ _ _ hh =>
    exact ⟨hconsistent, hdormant, hh.running.trans h.running, hhung, hcrashed, after_ne_stopped result⟩
  | check => exact ⟨hconsistent, hdormant, h.running, hhung, hcrashed, by simp⟩
  | wake => exact ⟨hconsistent, hdormant, h.running, hhung, hcrashed, by simp⟩

/-- A handler other than `idleSystem` can come to its end. -/
theorem Live.exists_round (h : Live address s) {state : State} (hstate : s.control = .loop state)
    (hidle : state ≠ .idleSystem) : ∃ env next s', Calm s.impl env state ∧ s.step (.thread env) = some s' ∧
      s'.control = .check next ∧ Alive s (.thread env) := by
  have hready := h.consistent.sound.control
  rw [hstate] at hready
  obtain ⟨env, next, w, hcalm, hexec⟩ := exists_returning hready hidle
  have hstep : s.step (.thread env) = some (s.runThread state env) := by rw [System.step, hstate]
  have hcontrol : (s.runThread state env).control = .check next := by
    simp [System.runThread, h.running, hexec, Control.after]
  exact ⟨env, next, _, hcalm, hstep, hcontrol,
    .of_step rfl (by simp) hstep (by simp [hcontrol]) (by simp [hcontrol])⟩

/-- `idleSystem` blocks unless the flag of `Notify` is set. -/
theorem Live.idles (h : Live address s) (hstate : s.control = .loop .idleSystem) :
    ∃ s', s.step (.thread {}) = some s' ∧ Alive s (.thread {}) ∧ s'.impl = idleImpl s.impl ∧
      s'.control = if s.impl.notify then .check .openDevice else .waiting := by
  have hstep : s.step (.thread {}) = some (s.runThread .idleSystem {}) := by rw [System.step, hstate]
  have hready : Ready s.impl .idleSystem := by
    have hcontrol := h.consistent.sound.control
    rw [hstate] at hcontrol
    exact hcontrol
  rcases runThread_cases {} hready with ⟨hrunning, -⟩ | ⟨-, result, impl', evs, hh, heq⟩
  · exact absurd (hrunning.symm.trans h.running) Bool.false_ne_true
  · rw [heq] at hstep
    obtain ⟨himpl, hresult⟩ := hh.idle_cases
    have hcontrol : Control.after result = if s.impl.notify then .check .openDevice else .waiting := by
      rcases hresult with ⟨hnotify, rfl⟩ | ⟨hnotify, rfl⟩
      · rw [if_pos hnotify]
        rfl
      · rw [if_neg (by simp [hnotify])]
        rfl
    refine ⟨_, hstep, .of_step rfl (by simp) hstep ?_ ?_, himpl, hcontrol⟩
    · show Control.after result ≠ .hung
      rw [hcontrol]
      split_ifs <;> simp
    · show Control.after result ≠ .crashed
      rw [hcontrol]
      split_ifs <;> simp

theorem exists_check {state : State} (hstate : s.control = .check state) :
    s.step .check = some { s with control := .loop (if s.impl.close then .idleSystem else state) } ∧
      Alive s .check := by
  have hstep : s.step .check = some { s with control := .loop (if s.impl.close then .idleSystem else state) } := by
    rw [System.step, hstate]
  exact ⟨hstep, .of_step rfl (by simp) hstep (by simp) (by simp)⟩

theorem exists_wake (hstate : s.control = .waiting) (hnotify : s.impl.notify = true) :
    ∃ s', s.step .wake = some s' ∧ Alive s .wake := by
  have hstep : s.step .wake =
      some { s with impl := { s.impl with notify := false }, control := .check .openDevice } := by
    rw [System.step, hstate]
  exact ⟨_, hstep, .of_step rfl (fun _ => hnotify) hstep (by simp) (by simp)⟩

/-- A thread that does not rest can make a step. -/
theorem Live.exists_step (h : Live address s) (hrests : ¬ s.Rests) :
    ∃ a s', s.step a = some s' ∧ Alive s a := by
  cases hcontrol : s.control with
  | loop state =>
    by_cases hidle : state = .idleSystem
    · subst hidle
      obtain ⟨s', hstep, halive, -⟩ := h.idles hcontrol
      exact ⟨_, s', hstep, halive⟩
    · obtain ⟨env, next, s', -, hstep, -, halive⟩ := h.exists_round hcontrol hidle
      exact ⟨_, s', hstep, halive⟩
  | check state => exact ⟨_, _, exists_check hcontrol⟩
  | waiting =>
    have hnotify : s.impl.notify = true := by
      by_contra hno
      exact hrests (.inr ⟨hcontrol, Bool.eq_false_iff.2 hno⟩)
    obtain ⟨s', hstep, halive⟩ := exists_wake hcontrol hnotify
    exact ⟨_, s', hstep, halive⟩
  | hung => exact absurd hcontrol h.goes.hung
  | crashed => exact absurd hcontrol h.goes.crashed
  | stopped => exact absurd hcontrol h.goes.stopped

end Round

/-! ### The way to the end -/

/-- The steps that the thread still needs to the `wait` of `idleSystem`. -/
def System.untilIdle (s : System) : Nat :=
  match s.control with
  | .loop .idleSystem => 1
  | .loop _ => 3
  | .check _ => 2
  | .waiting => if s.impl.notify then 3 else 0
  | _ => 0

/-- The steps that the thread still needs to the end of `run`, when `m_running` is clear. -/
def System.untilStopped (s : System) : Nat :=
  match s.control with
  | .loop _ => 1
  | .check _ => 2
  | .waiting => 3
  | _ => 0

/-- `close` has not been consumed, or the machine waits and nobody has called `open`. -/
def System.Closing (s : System) : Prop :=
  s.impl.close = true ∧ (s.impl.notify = false ∨ s.control = .waiting) ∨
    s.control = .waiting ∧ s.impl.notify = false

/-- The destructor has cleared `m_running`. -/
structure System.Ceasing (s : System) : Prop where
  running : s.impl.running = false
  hung : s.control ≠ .hung
  crashed : s.control ≠ .crashed

/-- What holds at each stage of the destructor. -/
def Dying (address : Byte) (s : System) : Stage → Prop
  | .close => Live address s ∧ (s.impl.notify = false ∨ s.control = .waiting)
  | .offline => Live address s ∧ s.Closing
  | .halt => Live address s
  | .notify => s.Ceasing
  | .join => s.Ceasing ∧ (s.control = .waiting → s.impl.notify = true)
  | .ended => False

/-- The rounds that the destructor may still need. -/
def System.remaining (s : System) : Stage → Nat
  | .close => 10
  | .offline => 6 + s.untilIdle
  | .halt => 5
  | .notify => 4
  | .join => s.untilStopped
  | .ended => 0

/-- The destructor does not have to wait for the thread. -/
def Stage.free : Stage → Bool
  | .close | .halt | .notify => true
  | _ => false

section Way

variable {address : Byte} {s s' : System} {a : Action}

/-- A step of the thread takes it nearer to the `wait` of `idleSystem`. -/
theorem System.Closing.step (hlive : Live address s) (h : s.Closing) (ha : Alive s a)
    (hstep : s.step a = some s') : s'.Closing ∧ s'.untilIdle < s.untilIdle := by
  have hown := ha.own
  cases stepped hlive.consistent.sound.control hstep with
  | setting _ _ _ _ _ _ _ hsets => cases a <;> simp [Action.own, Action.sets] at hown hsets
  | failed | called | enqueued | awoken => exact nomatch hown
  | stopped _ hrunning => exact absurd (hrunning.symm.trans hlive.running) Bool.false_ne_true
  | @thread state _ result impl' evs hstate hh =>
    obtain ⟨hclose, hnotify⟩ : s.impl.close = true ∧ s.impl.notify = false := by
      rcases h with ⟨hclose, hnotify | hwait⟩ | ⟨hwait, -⟩
      · exact ⟨hclose, hnotify⟩
      · exact nomatch hstate.symm.trans hwait
      · exact nomatch hstate.symm.trans hwait
    by_cases hidle : state = .idleSystem
    · subst hidle
      have hwait := hh.blocked hnotify
      have hnotify' := hh.notify.trans hnotify
      refine ⟨.inr ⟨hwait, hnotify'⟩, ?_⟩
      simp [System.untilIdle, hwait, hnotify', hstate]
    · obtain ⟨hhung, hcrashed⟩ := ha.returns _ hstep
      have hclose' := (hh.close hidle).trans hclose
      have hnotify' := hh.notify.trans hnotify
      refine ⟨.inl ⟨hclose', .inl hnotify'⟩, ?_⟩
      have hrank : s.untilIdle = 3 := by
        cases state <;> simp [System.untilIdle, hstate] at hidle ⊢
      rw [hrank]
      cases hcontrol : Control.after result with
      | check next => simp [System.untilIdle]
      | waiting => exact absurd (hh.not_blocked hcontrol).1 hidle
      | hung => exact absurd hcontrol hhung
      | crashed => exact absurd hcontrol hcrashed
      | stopped => exact absurd hcontrol (after_ne_stopped result)
      | loop next => cases result with
        | ok => exact nomatch hcontrol
        | error e => cases e <;> exact nomatch hcontrol
  | check hstate =>
    obtain ⟨hclose, hnotify⟩ : s.impl.close = true ∧ s.impl.notify = false := by
      rcases h with ⟨hclose, hnotify | hwait⟩ | ⟨hwait, -⟩
      · exact ⟨hclose, hnotify⟩
      · exact nomatch hstate.symm.trans hwait
      · exact nomatch hstate.symm.trans hwait
    rw [if_pos hclose]
    exact ⟨.inl ⟨hclose, .inl hnotify⟩, by simp [System.untilIdle, hstate]⟩
  | wake hwait =>
    have hnotify := ha.prompted rfl
    have hclose : s.impl.close = true := by
      rcases h with ⟨hclose, -⟩ | ⟨-, hno⟩
      · exact hclose
      · exact absurd (hno.symm.trans hnotify) Bool.false_ne_true
    exact ⟨.inl ⟨hclose, .inl rfl⟩, by simp [System.untilIdle, hwait, hnotify]⟩

/-- Without `m_running` every step of the thread takes it nearer to the end of `run`. -/
theorem System.Ceasing.step (h : s.Ceasing) (ha : Alive s a) (hstep : s.step a = some s') :
    s'.Ceasing ∧ s'.control ≠ .waiting ∧ s'.untilStopped < s.untilStopped := by
  obtain ⟨env, rfl⟩ | rfl | rfl := Action.own_cases ha.own
  · cases hstate : s.control with
    | loop state =>
      simp only [System.step, hstate, System.runThread, h.running, Bool.not_false, if_true,
        Option.some.injEq] at hstep
      subst hstep
      exact ⟨⟨h.running, by simp, by simp⟩, by simp, by simp [System.untilStopped, hstate]⟩
    | _ => simp [System.step, hstate] at hstep
  · obtain ⟨state, hstate, rfl⟩ := check_step hstep
    exact ⟨⟨h.running, by simp, by simp⟩, by simp, by simp [System.untilStopped, hstate]⟩
  · cases hstate : s.control with
    | waiting =>
      simp only [System.step, hstate, Option.some.injEq] at hstep
      subst hstep
      exact ⟨⟨h.running, by simp, by simp⟩, by simp, by simp [System.untilStopped, hstate]⟩
    | _ => simp [System.step, hstate] at hstep

/-- A step of the thread keeps what holds at the stage, and takes something from the measure where the
destructor waits for it. -/
theorem Dying.step {stage : Stage} (h : Dying address s stage) (ha : Alive s a) (hstep : s.step a = some s') :
    Dying address s' stage ∧
      (s'.remaining stage < s.remaining stage ∨ stage.free = true ∧ s'.remaining stage = s.remaining stage) := by
  cases stage with
  | close =>
    obtain ⟨hlive, hflag⟩ := h
    refine ⟨⟨hlive.step ha hstep, .inl ?_⟩, .inr ⟨rfl, rfl⟩⟩
    cases stepped hlive.consistent.sound.control hstep with
    | setting _ _ _ _ _ _ _ hsets =>
      have hown := ha.own
      cases a <;> simp [Action.own, Action.sets] at hown hsets
    | failed | called | enqueued | awoken => exact nomatch ha.own
    | wake => rfl
    | stopped hstate | check hstate =>
      exact hflag.resolve_right fun hwait => nomatch hstate.symm.trans hwait
    | thread hstate hh =>
      exact hh.notify.trans (hflag.resolve_right fun hwait => nomatch hstate.symm.trans hwait)
  | offline =>
    obtain ⟨hlive, hclosing⟩ := h
    obtain ⟨hclosing', hlt⟩ := hclosing.step hlive ha hstep
    exact ⟨⟨hlive.step ha hstep, hclosing'⟩, .inl (Nat.add_lt_add_left hlt 6)⟩
  | halt => exact ⟨Live.step h ha hstep, .inr ⟨rfl, rfl⟩⟩
  | notify => exact ⟨(System.Ceasing.step h ha hstep).1, .inr ⟨rfl, rfl⟩⟩
  | join =>
    obtain ⟨hceasing, hwait, hlt⟩ := h.1.step ha hstep
    exact ⟨⟨hceasing, fun h => absurd h hwait⟩, .inl hlt⟩
  | ended => exact h.elim

theorem Dying.run {stage : Stage} {as : List Action} (hrun : Run System.step Alive s as s')
    (h : Dying address s stage) :
    Dying address s' stage ∧ s'.remaining stage ≤ s.remaining stage ∧
      (as ≠ [] → stage.free = false → s'.remaining stage < s.remaining stage) := by
  induction hrun with
  | nil s => exact ⟨h, le_rfl, fun hne => absurd rfl hne⟩
  | cons ha hstep _ ih =>
    obtain ⟨hdying, hmeasure⟩ := h.step ha hstep
    obtain ⟨hdying', hle, -⟩ := ih hdying
    refine ⟨hdying', ?_, fun _ hfree => ?_⟩
    · rcases hmeasure with hlt | ⟨-, heq⟩ <;> omega
    · rcases hmeasure with hlt | ⟨hfree', -⟩
      · omega
      · exact absurd (hfree'.symm.trans hfree) (by simp)

theorem untilIdle_lt (s : System) : s.untilIdle < 4 := by
  unfold System.untilIdle
  split <;> (try split_ifs) <;> omega

/-- The destructor goes on, and comes nearer to its end. -/
theorem Dying.destroy {stage : Stage} {e : Ending} (h : Dying address s stage)
    (htry : Ending.destroy ⟨s, stage⟩ = some e) :
    e.Done ∨ Dying address e.system e.stage ∧ e.system.remaining e.stage < s.remaining stage := by
  cases stage with
  | close =>
    obtain rfl := Option.some_inj.1 htry
    obtain ⟨hlive, hflag⟩ := h
    have hstep : s.step .closeCall = some { s with impl := { s.impl with close := true } } := rfl
    refine .inr ⟨⟨⟨hlive.consistent.step hstep, hlive.dormant, hlive.running, hlive.goes.hung, hlive.goes.crashed,
      hlive.goes.stopped⟩, .inl ⟨rfl, hflag⟩⟩, ?_⟩
    exact Nat.add_lt_add_left (untilIdle_lt _) 6
  | offline =>
    simp only [Ending.destroy] at htry
    split_ifs at htry
    obtain rfl := Option.some_inj.1 htry
    exact .inr ⟨h.1, by simp only [System.remaining]; omega⟩
  | halt =>
    obtain rfl := Option.some_inj.1 htry
    exact .inr ⟨⟨rfl, h.goes.hung, h.goes.crashed⟩, by simp [System.remaining]⟩
  | notify =>
    obtain rfl := Option.some_inj.1 htry
    refine .inr ⟨⟨⟨h.running, h.hung, h.crashed⟩, fun _ => rfl⟩, ?_⟩
    simp only [System.remaining, System.untilStopped]
    split <;> omega
  | join =>
    simp only [Ending.destroy] at htry
    split_ifs at htry with hstopped
    obtain rfl := Option.some_inj.1 htry
    exact .inl ⟨rfl, hstopped, rfl⟩
  | ended => exact h.elim

/-- The destructor never waits for a thread that rests. -/
theorem Dying.waits {stage : Stage} (h : Dying address s stage) (htry : Ending.destroy ⟨s, stage⟩ = none) :
    stage.free = false ∧ ¬ s.Rests := by
  cases stage with
  | offline =>
    obtain ⟨hlive, -⟩ := h
    have honline : s.impl.online = true := by
      simp only [Ending.destroy] at htry
      split_ifs at htry with honline
      exact honline
    refine ⟨rfl, ?_⟩
    rintro (hstop | ⟨hwait, -⟩)
    · exact hlive.goes.stopped hstop
    · exact absurd ((hlive.dormant hwait).symm.trans honline) Bool.false_ne_true
  | join =>
    obtain ⟨-, hflag⟩ := h
    have hstopped : s.control ≠ .stopped := by
      simp only [Ending.destroy] at htry
      split_ifs at htry with hstopped
      exact hstopped
    refine ⟨rfl, ?_⟩
    rintro (hstop | ⟨hwait, hno⟩)
    · exact hstopped hstop
    · exact absurd (hno.symm.trans (hflag hwait)) Bool.false_ne_true
  | ended => exact h.elim
  | _ => exact nomatch htry

/-- A thread that has ended makes no step. -/
theorem run_of_stopped {as : List Action} (hrun : Run System.step Alive s as s')
    (hstopped : s.control = .stopped) : s' = s := by
  cases hrun with
  | nil => rfl
  | @cons _ s₁ _ a _ ha hstep =>
    obtain ⟨env, rfl⟩ | rfl | rfl := Action.own_cases ha.own <;> simp [System.step, hstopped] at hstep

/-- Behind a round the destructor has returned, or it is nearer to its end. -/
theorem Dying.round {e e' : Ending} (h : Dying address e.system e.stage) (hround : EndingRound e e') :
    e'.Done ∨ Dying address e'.system e'.stage ∧ e'.system.remaining e'.stage < e.system.remaining e.stage := by
  obtain @⟨as, as', s₁, s₂, e₁, hbefore, rfl, hbehind, rfl, hfair⟩ := hround
  obtain ⟨hdying, hle, hlt⟩ := Dying.run hbefore h
  cases htry : Ending.destroy ⟨s₁, e.stage⟩ with
  | some e₁ =>
    rw [htry] at hbehind
    rcases hdying.destroy htry with hdone | ⟨hdying₁, hlt₁⟩
    · refine .inl ?_
      rw [run_of_stopped hbehind hdone.joined]
      exact hdone
    · obtain ⟨hdying₂, hle₂, -⟩ := Dying.run hbehind hdying₁
      exact .inr ⟨hdying₂, hle₂.trans_lt (hlt₁.trans_le hle)⟩
  | none =>
    rw [htry] at hbehind
    obtain ⟨hdying₂, hle₂, hlt₂⟩ := Dying.run hbehind hdying
    obtain ⟨hfree, hrests⟩ := hdying.waits htry
    refine .inr ⟨hdying₂, ?_⟩
    by_cases hnil : as = []
    · refine (hlt₂ ?_ hfree).trans_le hle
      rintro rfl
      cases hbehind
      exact hrests (hfair (by rw [hnil, List.nil_append]))
    · exact hle₂.trans_lt (hlt hnil hfree)

theorem Dying.exists_step {stage : Stage} (h : Dying address s stage) (hrests : ¬ s.Rests) :
    ∃ a s', s.step a = some s' ∧ Alive s a := by
  have hceasing : s.Ceasing → ∃ a s', s.step a = some s' ∧ Alive s a := by
    intro h
    cases hcontrol : s.control with
    | loop state =>
      have hstep : s.step (.thread {}) = some { s with control := .stopped } := by
        simp [System.step, hcontrol, System.runThread, h.running]
      exact ⟨_, _, hstep, .of_step rfl (by simp) hstep (by simp) (by simp)⟩
    | check state => exact ⟨_, _, exists_check hcontrol⟩
    | waiting =>
      have hnotify : s.impl.notify = true := by
        by_contra hno
        exact hrests (.inr ⟨hcontrol, Bool.eq_false_iff.2 hno⟩)
      obtain ⟨s', hstep, halive⟩ := exists_wake hcontrol hnotify
      exact ⟨_, s', hstep, halive⟩
    | hung => exact absurd hcontrol h.hung
    | crashed => exact absurd hcontrol h.crashed
    | stopped => exact absurd (.inl hcontrol) hrests
  cases stage with
  | close | offline => exact h.1.exists_step hrests
  | halt => exact Live.exists_step h hrests
  | notify => exact hceasing h
  | join => exact hceasing h.1
  | ended => exact h.elim

theorem Dying.exists_round {e : Ending} (h : Dying address e.system e.stage) : ∃ e', EndingRound e e' := by
  obtain ⟨e₁, htry⟩ : ∃ e₁, e₁ = (Ending.destroy ⟨e.system, e.stage⟩).getD ⟨e.system, e.stage⟩ := ⟨_, rfl⟩
  by_cases hrests : e₁.system.Rests
  · exact ⟨_, .intro (.nil _) htry (.nil _) rfl fun _ => hrests⟩
  · have hdying : Dying address e₁.system e₁.stage := by
      cases hdestroy : Ending.destroy ⟨e.system, e.stage⟩ with
      | none =>
        rw [hdestroy] at htry
        rw [htry]
        exact h
      | some e₂ =>
        rw [hdestroy] at htry
        obtain rfl : e₁ = e₂ := htry
        rcases h.destroy hdestroy with hdone | ⟨hdying, -⟩
        · exact absurd (.inl hdone.joined) hrests
        · exact hdying
    obtain ⟨a, s', hstep, halive⟩ := hdying.exists_step hrests
    exact ⟨_, .intro (.nil _) htry (.cons halive hstep (.nil _)) rfl (by simp)⟩

end Way

/-- **The object comes to its end**: whatever states a run left the machine and its messages in, if no `open`
is pending, the destructor returns within eleven of its attempts, with the thread joined and the queue
empty. -/
theorem destructor_ends {address : Byte} {guard : System → Action → Prop} {as : List Action} {s : System}
    (hrun : Run System.step guard (System.init address) as s) (hrunning : s.impl.running = true) (hgoes : s.Goes)
    (hflag : s.impl.notify = false ∨ s.control = .waiting) :
    Leads EndingRound Ending.Done 11 ⟨s, .close⟩ := by
  have hdying : Dying address s .close := ⟨⟨consistent_of_run hrun, dormant_of_run hrun, hrunning, hgoes⟩, hflag⟩
  exact leads_of_variant (I := fun e => Dying address e.system e.stage) (fun e => e.system.remaining e.stage)
    (fun e he => ⟨he.exists_round, fun e' hround => he.round hround⟩) hdying (by simp [System.remaining])

/-- A machine with a message in its queue comes to its end. -/
theorem destructor_ends_sample :
    ∃ s, execute System.step (fun _ => setsNothing) (System.init 0xff) (handlers [[seqSyn]] ++
        [.transmit [0xfe, 0xb5, 0x05, 0x01, 0x27], .enqueue broadcastMessage]) = some s ∧
      s.impl.messageQueue = [broadcastMessage] ∧ Leads EndingRound Ending.Done 11 ⟨s, .close⟩ := by
  let as : List Action := handlers [[seqSyn]] ++
    [.transmit [0xfe, 0xb5, 0x05, 0x01, 0x27], .enqueue broadcastMessage]
  obtain ⟨s, hs, heq⟩ := Option.map_eq_some_iff.1
    (show (execute System.step (fun _ => setsNothing) (System.init 0xff) as).map (fun s =>
      ((s.impl.messageQueue, s.control), s.impl.notify, s.impl.running)) =
      some (([broadcastMessage], .loop .monitorBus), false, true) by decide +kernel)
  obtain ⟨hqueue, hcontrol, hnotify, hrunning⟩ : s.impl.messageQueue = [broadcastMessage] ∧
      s.control = .loop .monitorBus ∧ s.impl.notify = false ∧ s.impl.running = true := by
    simpa [and_assoc] using heq
  have hleads := destructor_ends (run_of_execute ne_set_of_setsNothing hs) hrunning
    ⟨by simp [hcontrol], by simp [hcontrol], by simp [hcontrol]⟩ (.inl hnotify)
  exact ⟨s, hs, hqueue, hleads⟩

/-! ### A pending `open` -/

section Missed

variable {address : Byte} {s s' : System} {impl impl' : EbusImpl} {env : Env} {state : State}
  {result : Except Stop State} {evs : List Event}

/-- The machine works on the bus, and nothing asks it to close. -/
structure Missed (address : Byte) (s : System) : Prop where
  live : Live address s
  online : s.impl.online = true
  close : s.impl.close = false
  state : ∃ state, s.control = .loop state ∧ state ≠ .idleSystem

/-- The thread can get to a state in which the destructor has missed `idleSystem`. -/
def Escapes (address : Byte) (s : System) : Prop :=
  ∃ as s', Run System.step Alive s as s' ∧ Missed address s'

theorem Escapes.cons {a : Action} (ha : Alive s a) (hstep : s.step a = some s') (h : Escapes address s') :
    Escapes address s := by
  obtain ⟨as, s'', hrun, hmissed⟩ := h
  exact ⟨a :: as, s'', .cons ha hstep hrun, hmissed⟩

/-- Only `idleSystem` clears `m_online`. -/
theorem Handled.online (h : Handled impl env state result impl' evs) (hidle : state ≠ .idleSystem)
    (honline : impl.online = true) : impl'.online = true := by
  cases h with
  | idle => exact absurd rfl hidle
  | opened => rfl
  | oversizeAlone _ h => exact (shell_online h.shell).trans honline
  | misread _ _ h => exact (shell_online h.shell).trans honline
  | device h =>
    have hshell := shell_online h.shell
    exact hshell.trans honline
  | hung h => exact (shell_online h.shell).trans honline
  | _ => exact honline

/-- The device can be opened, and `openDevice` sets `m_online`. -/
theorem Handled.opens {next : State} (h : Handled impl env .openDevice (.ok next) impl' evs)
    (hcalm : Calm impl env .openDevice) : impl'.online = true := by
  generalize hstate : State.openDevice = state at h
  generalize hresult : (Except.ok next : Except Stop State) = result at h
  cases h with
  | opened => rfl
  | unopened _ hopens =>
    rw [hcalm.1] at hopens
    exact nomatch hopens
  | device _ _ _ hthrows =>
    subst hstate
    exact absurd hthrows (not_throws_openDevice hcalm.1 hcalm.2)
  | hung => exact nomatch hresult
  | _ => exact nomatch hstate

/-- The thread goes on until it is behind `idleSystem`, and online again. -/
theorem Missed.of_loop (h : Live address s) (hstate : s.control = .loop state) (hidle : state ≠ .idleSystem)
    (honline : s.impl.online = true ∨ state = .openDevice) (hclose : s.impl.close = false) :
    ∃ as s', Run System.step Alive s as s' ∧ as ≠ [] ∧ Missed address s' := by
  obtain ⟨env, next, s₁, hcalm, hstep, hcontrol, halive⟩ := h.exists_round hstate hidle
  have hlive₁ := h.step halive hstep
  obtain ⟨honline₁, hclose₁, hnext⟩ : s₁.impl.online = true ∧ s₁.impl.close = false ∧ next ≠ .idleSystem := by
    cases stepped h.consistent.sound.control hstep with
    | setting _ _ _ _ _ _ _ hsets => exact nomatch hsets
    | stopped => exact nomatch hcontrol
    | @thread state' _ result impl' evs hstate' hh =>
      obtain rfl : state' = state := Control.loop.inj (hstate'.symm.trans hstate)
      obtain rfl := after_eq_check hcontrol
      refine ⟨?_, (hh.close hidle).trans hclose, hh.next_ne_idleSystem⟩
      rcases honline with honline | rfl
      · exact hh.online hidle honline
      · exact hh.opens hcalm
  obtain ⟨hcheck, halive₁⟩ := exists_check hcontrol
  rw [if_neg (by simp [hclose₁])] at hcheck
  exact ⟨_, _, .cons halive hstep (.cons halive₁ hcheck (.nil _)), by simp, hlive₁.step halive₁ hcheck, honline₁,
    hclose₁, next, rfl, hnext⟩

/-- A thread that finds the flag of `Notify` set passes through `idleSystem` and opens the device again. -/
theorem escapes_of_idle (h : Live address s) (hstate : s.control = .loop .idleSystem)
    (hnotify : s.impl.notify = true) : Escapes address s := by
  obtain ⟨s₁, hstep, halive, himpl, hcontrol⟩ := h.idles hstate
  rw [if_pos hnotify] at hcontrol
  have hlive₁ := h.step halive hstep
  have hclose₁ : s₁.impl.close = false := by
    rw [himpl]
    rfl
  obtain ⟨hcheck, halive₁⟩ := exists_check hcontrol
  rw [if_neg (by simp [hclose₁])] at hcheck
  obtain ⟨as, s', hrun, -, hmissed⟩ := Missed.of_loop (hlive₁.step halive₁ hcheck) rfl (by simp) (.inr rfl) hclose₁
  exact ⟨_, s', .cons halive hstep (.cons halive₁ hcheck hrun), hmissed⟩

theorem escapes_of_check (h : Live address s) (hstate : s.control = .check state)
    (hclose : s.impl.close = true) (hnotify : s.impl.notify = true) : Escapes address s := by
  obtain ⟨hcheck, halive⟩ := exists_check hstate
  rw [if_pos hclose] at hcheck
  exact (escapes_of_idle (h.step halive hcheck) rfl hnotify).cons halive hcheck

/-- From any place outside the `wait` the thread can escape the destructor. -/
theorem escapes (h : Live address s) (hwait : s.control ≠ .waiting) (hclose : s.impl.close = true)
    (hnotify : s.impl.notify = true) : Escapes address s := by
  cases hcontrol : s.control with
  | loop state =>
    by_cases hidle : state = .idleSystem
    · subst hidle
      exact escapes_of_idle h hcontrol hnotify
    · obtain ⟨env, next, s₁, -, hstep, hcontrol₁, halive⟩ := h.exists_round hcontrol hidle
      have hlive₁ := h.step halive hstep
      obtain ⟨hclose₁, hnotify₁⟩ : s₁.impl.close = true ∧ s₁.impl.notify = true := by
        cases stepped h.consistent.sound.control hstep with
        | setting _ _ _ _ _ _ _ hsets => exact nomatch hsets
        | stopped => exact nomatch hcontrol₁
        | @thread state' _ result impl' evs hstate' hh =>
          obtain rfl : state' = state := Control.loop.inj (hstate'.symm.trans hcontrol)
          exact ⟨(hh.close hidle).trans hclose, hh.notify.trans hnotify⟩
      exact (escapes_of_check hlive₁ hcontrol₁ hclose₁ hnotify₁).cons halive hstep
  | check state => exact escapes_of_check h hcontrol hclose hnotify
  | waiting => exact absurd hcontrol hwait
  | hung => exact absurd hcontrol h.goes.hung
  | crashed => exact absurd hcontrol h.goes.crashed
  | stopped => exact absurd hcontrol h.goes.stopped

/-- The destructor polls once more. -/
theorem Missed.round (h : Missed address s) :
    ∃ s', BusyRound ⟨s, .offline⟩ ⟨s', .offline⟩ ∧ Missed address s' := by
  obtain ⟨state, hstate, hidle⟩ := h.state
  obtain ⟨as, s', hrun, hne, hmissed⟩ := Missed.of_loop h.live hstate hidle (.inl h.online) h.close
  have hwaits : Ending.destroy ⟨s', .offline⟩ = none := by
    simp [Ending.destroy, hmissed.online]
  refine ⟨s', .intro hrun rfl (.nil _) ?_ ?_, hmissed⟩
  · rw [hwaits]
    rfl
  · rw [List.append_nil]
    exact hne

end Missed

/-- **A pending `open` outlives the object**: if the flag of `Notify` is set and the machine does not wait for
it, the destructor may poll `m_online` for ever, although the thread makes a step in every round. -/
theorem destructor_polls {address : Byte} {guard : System → Action → Prop} {as : List Action} {s : System}
    (hrun : Run System.step guard (System.init address) as s) (hrunning : s.impl.running = true) (hgoes : s.Goes)
    (hnotify : s.impl.notify = true) (hwait : s.control ≠ .waiting) :
    ∃ f : Nat → Ending, f 0 = ⟨s, .close⟩ ∧
      ∀ n, EndingRound (f n) (f (n + 1)) ∧ BusyRound (f n) (f (n + 1)) ∧ (f (n + 1)).stage = .offline := by
  let closing : System := { s with impl := { s.impl with close := true } }
  have hconsistent : Consistent address s := consistent_of_run hrun
  have hdormant : s.Dormant := dormant_of_run hrun
  have hclosing : Live address closing :=
    ⟨hconsistent.step (a := .closeCall) rfl, hdormant, hrunning, hgoes.hung, hgoes.crashed, hgoes.stopped⟩
  obtain ⟨as', s', hrun', hmissed⟩ := escapes hclosing hwait rfl hnotify
  have hfirst : BusyRound ⟨s, .close⟩ ⟨s', .offline⟩ := by
    refine .intro (.nil _) rfl hrun' rfl ?_
    rintro rfl
    -- the thread has to clear `m_close` first
    cases hrun'
    exact nomatch hmissed.close
  have hround : ∀ e : Ending, e.stage = .offline ∧ Missed address e.system →
      ∃ e', BusyRound e e' ∧ e'.stage = .offline ∧ Missed address e'.system := by
    rintro ⟨s, stage⟩ ⟨rfl, hmissed⟩
    obtain ⟨s', hround, hmissed'⟩ := hmissed.round
    exact ⟨_, hround, rfl, hmissed'⟩
  obtain ⟨g, hg, hrounds⟩ := exists_endless hround (s := ⟨s', .offline⟩) ⟨rfl, hmissed⟩
  refine ⟨fun n => n.casesOn ⟨s, .close⟩ g, rfl, fun n => ?_⟩
  cases n with
  | zero =>
    show EndingRound ⟨s, .close⟩ (g 0) ∧ BusyRound ⟨s, .close⟩ (g 0) ∧ (g 0).stage = .offline
    rw [hg]
    exact ⟨hfirst.ending, hfirst, rfl⟩
  | succ n => exact ⟨(hrounds n).1.ending, (hrounds n).1, (hrounds (n + 1)).2.1⟩

/-- An `open` that met the machine at work. -/
theorem destructor_polls_sample :
    ∃ s, execute System.step (fun _ => setsNothing) (System.init 0xff)
        (.openCall :: handlers [[seqSyn]]) = some s ∧
      ∃ f : Nat → Ending, f 0 = ⟨s, .close⟩ ∧
        ∀ n, EndingRound (f n) (f (n + 1)) ∧ BusyRound (f n) (f (n + 1)) ∧ (f (n + 1)).stage = .offline := by
  obtain ⟨s, hs, heq⟩ := Option.map_eq_some_iff.1
    (show (execute System.step (fun _ => setsNothing) (System.init 0xff)
        (.openCall :: handlers [[seqSyn]])).map (fun s => (s.control, s.impl.notify, s.impl.running)) =
      some (.loop .monitorBus, true, true) by decide +kernel)
  obtain ⟨hcontrol, hnotify, hrunning⟩ : s.control = .loop .monitorBus ∧ s.impl.notify = true ∧
      s.impl.running = true := by simpa using heq
  exact ⟨s, hs, destructor_polls (run_of_execute ne_set_of_setsNothing hs) hrunning
    ⟨by simp [hcontrol], by simp [hcontrol], by simp [hcontrol]⟩ hnotify (by simp [hcontrol])⟩

end EBusFsm

import EBusFsm.Machine.Safety

/-!
# The signal `Notify`

`Notify` is a flag with a condition variable, for one thread that waits and any number of others that notify.
A step is a section of the code that holds the mutex: the whole of `notify`, `wait` up to its return or up to
`m_condition.wait`, and the rest of `wait` behind it. In between a wake-up may come without a notification.

The loop in `wait` ends with a `break`, and only its body clears the flag. So a call that finds the flag set
leaves it set, and a call that was woken does not look at it again. `exact_iff` says which steps do harm.

The `wait` of `idleSystem` and the `open` calls are a run of this model (`shadowed_of_run`).
-/

namespace EBusFsm

/-- Where the thread that waits is. -/
inductive Waiter
  | outside
  /-- In `m_condition.wait`. -/
  | blocked
  /-- Woken up, and about to take the mutex again. -/
  | woken
  deriving DecidableEq, Repr

structure Notify where
  notify : Bool := false
  waiter : Waiter := .outside
  deriving DecidableEq, Repr

namespace Notify

inductive Action
  | notify
  /-- `wait` is called. -/
  | wait
  /-- A wake-up that no `notify` caused. -/
  | wakeUp
  /-- `m_condition.wait` returns. -/
  | resume
  deriving DecidableEq, Repr

def step (s : Notify) : Action → Option Notify
  | .notify => some { notify := true, waiter := if s.waiter = .blocked then .woken else s.waiter }
  | .wait =>
    if s.waiter = .outside then
      if !s.notify then some { s with waiter := .blocked } else some s
    else none
  | .wakeUp => if s.waiter = .blocked then some { s with waiter := .woken } else none
  | .resume => if s.waiter = .woken then some { notify := false, waiter := .outside } else none

/-! ### The property -/

/-- A call of `wait` returns in this step. -/
def Returns (e : Notify × Action) : Prop := e.2 = .resume ∨ e.2 = .wait ∧ e.1.notify = true

/-- Some `notify` came since the last return. -/
def Notified (history : List (Notify × Action)) : Prop :=
  ∃ before e after, history = before ++ e :: after ∧ e.2 = .notify ∧ ∀ e' ∈ after, ¬ Returns e'

/-- A call that starts behind a `notify` returns at once. -/
def Prompt (before : List (Notify × Action)) (e : Notify × Action) : Prop :=
  e.2 = .wait → Notified before → Returns e

/-- No signal is invented, lost or left over. -/
structure Signalled (before : List (Notify × Action)) (e : Notify × Action) : Prop where
  caused : Returns e → Notified before
  prompt : Prompt before e
  consumed : e.1.notify = true → Notified before

/-- The steps of the history are as they should be, and so is the state behind them. -/
def Exact (history : List (Notify × Action)) (s : Notify) : Prop :=
  Justified Signalled history ∧ (s.notify = true → Notified history)

/-- No call finds the flag set, and none returns from `m_condition.wait` with the flag clear. -/
def Clean (e : Notify × Action) : Prop :=
  (e.2 = .wait → e.1.notify = false) ∧ (e.2 = .resume → e.1.notify = true)

/-! ### The flag and the history -/

theorem notified_snoc (history : List (Notify × Action)) (e : Notify × Action) :
    Notified (history ++ [e]) ↔ e.2 = .notify ∨ Notified history ∧ ¬ Returns e := by
  constructor
  · rintro ⟨before, e', after, heq, hnotify, hafter⟩
    rcases List.eq_nil_or_concat after with rfl | ⟨after, e'', rfl⟩
    · obtain ⟨-, hlast⟩ := List.append_inj' heq rfl
      rw [List.singleton_inj.1 hlast]
      exact .inl hnotify
    · rw [List.concat_eq_append, ← List.cons_append, ← List.append_assoc] at heq
      obtain ⟨hhistory, hlast⟩ := List.append_inj' heq rfl
      rw [List.singleton_inj.1 hlast]
      exact .inr ⟨⟨before, e', after, hhistory, hnotify, fun x hx => hafter x (by simp [hx])⟩,
        hafter e'' (by simp)⟩
  · rintro (hnotify | ⟨⟨before, e', after, rfl, hnotify, hafter⟩, hreturns⟩)
    · exact ⟨history, e, [], rfl, hnotify, by simp⟩
    · refine ⟨before, e', after ++ [e], by simp, hnotify, fun x hx => ?_⟩
      rcases List.mem_append.1 hx with hx | hx
      · exact hafter x hx
      · rw [List.mem_singleton.1 hx]
        exact hreturns

/-- Only `notify` sets the flag, and only a `wait` that was blocked clears it. -/
theorem notify_of_step {s s' : Notify} {a : Action} (hstep : s.step a = some s') :
    s'.notify = true ↔ a = .notify ∨ s.notify = true ∧ a ≠ .resume := by
  cases a <;> simp only [step] at hstep
  case notify =>
    cases hstep
    simp
  all_goals
    split_ifs at hstep
    all_goals
      cases hstep
      simp

theorem Notified.mem {history : List (Notify × Action)} (h : Notified history) :
    ∃ e ∈ history, e.2 = .notify := by
  obtain ⟨before, e, after, rfl, hnotify, -⟩ := h
  exact ⟨e, by simp, hnotify⟩

theorem not_notified_nil : ¬ Notified [] := fun h => by simpa using h.mem

/-- A `notify` since the last return has left the flag set. -/
theorem set_of_notified {history : List (Notify × Action)} {s s' : Notify} {a : Action}
    (hset : Notified history → s.notify = true) (hstep : s.step a = some s')
    (h : Notified (history ++ [(s, a)])) : s'.notify = true := by
  rw [notify_of_step hstep]
  refine ((notified_snoc _ _).1 h).imp_right fun ⟨hbefore, hreturns⟩ => ⟨hset hbefore, ?_⟩
  rintro rfl
  exact hreturns (.inl rfl)

theorem Prompt.of_set {before : List (Notify × Action)} {e : Notify × Action}
    (h : Notified before → e.1.notify = true) : Prompt before e :=
  fun hwait hbefore => .inr ⟨hwait, h hbefore⟩

theorem Exact.of_snoc {history : List (Notify × Action)} {s s' : Notify} {a : Action}
    (h : Exact (history ++ [(s, a)]) s') : Exact history s :=
  ⟨h.1.of_append, h.1.last.consumed⟩

/-- A step keeps a history exact if and only if it is clean. -/
theorem exact_snoc_iff {history : List (Notify × Action)} {s s' : Notify} {a : Action}
    (hset : Notified history → s.notify = true) (h : Exact history s) (hstep : s.step a = some s') :
    Exact (history ++ [(s, a)]) s' ↔ Clean (s, a) := by
  constructor
  · rintro ⟨hjustified, hconsumed⟩
    have hlast := hjustified.last
    refine ⟨?_, ?_⟩
    · rintro rfl
      by_contra hnotify
      have hfound : s.notify = true := eq_true_of_ne_false hnotify
      have hleft := hconsumed ((notify_of_step hstep).2 (.inr ⟨hfound, by simp⟩))
      rcases (notified_snoc _ _).1 hleft with heq | ⟨-, hreturns⟩
      · cases heq
      · exact hreturns (.inr ⟨rfl, hfound⟩)
    · rintro rfl
      exact hset (hlast.caused (.inl rfl))
  · rintro ⟨hwait, hresume⟩
    refine ⟨h.1.snoc ⟨?_, .of_set hset, h.2⟩, fun hnotify => ?_⟩
    · rintro (hreturn | ⟨hcall, hfound⟩)
      · exact h.2 (hresume hreturn)
      · rw [hwait hcall] at hfound
        cases hfound
    · rw [notified_snoc]
      refine ((notify_of_step hstep).1 hnotify).imp_right fun ⟨hfound, hno⟩ => ⟨h.2 hfound, ?_⟩
      rintro (hreturn | ⟨hcall, -⟩)
      · exact hno hreturn
      · rw [hwait hcall] at hfound
        cases hfound

/-- **The signals of a run are exact if and only if every step is clean**: each `wait` returns for a `notify` of
its own, and leaves the flag clear. That a call behind a `notify` returns at once holds in every run. -/
theorem exact_iff {as : List Action} {s : Notify} (hrun : Run step (fun _ _ => True) {} as s) :
    Justified Prompt (visited step {} as) ∧
      (Exact (visited step {} as) s ↔ ∀ e ∈ visited step {} as, Clean e) := by
  refine (hrun.history (I := fun history s => (Notified history → s.notify = true) ∧
    Justified Prompt history ∧ (Exact history s ↔ ∀ e ∈ history, Clean e)) ?_ ?_).2
  · rintro history s a s' ⟨hset, hprompt, hexact⟩ - hstep
    refine ⟨set_of_notified hset hstep, hprompt.snoc (.of_set hset), ?_⟩
    rw [List.forall_mem_append, List.forall_mem_singleton, ← hexact]
    constructor
    · intro h
      exact ⟨h.of_snoc, (exact_snoc_iff hset h.of_snoc hstep).1 h⟩
    · rintro ⟨h, hclean⟩
      exact (exact_snoc_iff hset h hstep).2 hclean
  · refine ⟨fun h => absurd h not_notified_nil, .nil, ⟨fun _ => by simp, fun _ => ⟨.nil, by simp⟩⟩⟩

instance : DecidablePred Clean := fun e =>
  inferInstanceAs (Decidable ((e.2 = .wait → e.1.notify = false) ∧ (e.2 = .resume → e.1.notify = true)))

/-- A call of `wait` that is blocked returns for the `notify` that comes then. -/
theorem exact_iff_sample : Exact (visited step {} [.wait, .notify, .resume]) {} := by
  have hrun : Run step (fun _ _ => True) {} [.wait, .notify, .resume] {} :=
    run_of_execute (fun _ _ _ => trivial) (show execute step (fun _ _ => true) {} _ = some {} by decide)
  exact (exact_iff hrun).2.2 (by decide)

theorem not_notified_of_returns {history : List (Notify × Action)} {e : Notify × Action} (h : Returns e) :
    ¬ Notified (history ++ [e]) := by
  rw [notified_snoc]
  rintro (hnotify | ⟨-, hno⟩)
  · rcases h with hreturn | ⟨hcall, -⟩
    · rw [hnotify] at hreturn
      cases hreturn
    · rw [hnotify] at hcall
      cases hcall
  · exact hno h

/-- One `notify` lets two calls return, and a spurious wake-up lets one return without any. -/
theorem inexact_sample :
    (∃ s, execute step (fun _ _ => true) {} [.notify, .wait, .wait] = some s ∧
      ¬ Exact (visited step {} [.notify, .wait, .wait]) s) ∧
    (∃ s, execute step (fun _ _ => true) {} [.wait, .wakeUp, .resume] = some s ∧
      ¬ Exact (visited step {} [.wait, .wakeUp, .resume]) s) := by
  refine ⟨⟨⟨true, .outside⟩, by decide, fun h => ?_⟩, ⟨{}, by decide, fun h => ?_⟩⟩
  · have hcaused := h.1 [({}, .notify), (⟨true, .outside⟩, .wait)] (⟨true, .outside⟩, .wait) [] (by decide)
    have hnotified : Notified ([(⟨false, .outside⟩, .notify)] ++ [(⟨true, .outside⟩, .wait)]) :=
      hcaused.caused (.inr ⟨rfl, rfl⟩)
    exact not_notified_of_returns (.inr ⟨rfl, rfl⟩) hnotified
  · have hcaused := h.1 [({}, .wait), (⟨false, .blocked⟩, .wakeUp)] (⟨false, .woken⟩, .resume) [] (by decide)
    have hnotified := hcaused.caused (.inl rfl)
    obtain ⟨e, he, hnotify⟩ := hnotified.mem
    revert e
    decide

end Notify

/-! ### The wait of `idleSystem` -/

/-- The signal of the machine, and where its thread is. -/
structure Shadows (n : Notify) (s : System) : Prop where
  notify : n.notify = s.impl.notify
  waiter : n.waiter = .outside ↔ s.control ≠ .waiting

/-- The signal can go on to that of the machine in `s`. -/
def Follows (n : Notify) (s : System) : Prop :=
  ∃ as n', Run Notify.step (fun _ _ => True) n as n' ∧ Shadows n' s

section Shadow

variable {n : Notify} {s s' : System} {a : Action}

/-- A step that does not touch the signal. -/
theorem Shadows.same (h : Shadows n s) (hnotify : s'.impl.notify = s.impl.notify)
    (hcontrol : s'.control = .waiting ↔ s.control = .waiting) :
    Follows n s' :=
  ⟨[], n, .nil n, h.notify.trans hnotify.symm, by rw [h.waiter, Ne, Ne, hcontrol]⟩

theorem Follows.of_step (b : Notify.Action) (n' : Notify) (hstep : n.step b = some n') (h : Shadows n' s') :
    Follows n s' :=
  ⟨[b], n', .cons trivial hstep (.nil n'), h⟩

/-- `idleSystem` calls `wait`. -/
theorem Shadows.thread {impl' : EbusImpl} {env : Env} {state : State} {result : Except Stop State}
    {evs : List Event} (h : Shadows n s) (hstate : s.control = .loop state)
    (hh : Handled s.impl env state result impl' evs) (hnotify : s'.impl.notify = impl'.notify)
    (hcontrol : s'.control = .after result) :
    Follows n s' := by
  have houtside : n.waiter = .outside := h.waiter.2 (by simp [hstate])
  have hkept : s'.impl.notify = s.impl.notify := hnotify.trans hh.notify
  by_cases hidle : state = .idleSystem
  · subst hidle
    rcases hh.idle_cases.2 with ⟨hset, rfl⟩ | ⟨hclear, rfl⟩
    · refine .of_step .wait n ?_ ⟨h.notify.trans hkept.symm, ?_⟩
      · simp [Notify.step, houtside, h.notify, hset]
      · simp [houtside, hcontrol, Control.after]
    · refine .of_step .wait { n with waiter := .blocked } ?_ ⟨h.notify.trans hkept.symm, ?_⟩
      · simp [Notify.step, houtside, h.notify, hclear]
      · simp [hcontrol, Control.after]
  · refine h.same hkept (iff_of_false ?_ (by simp [hstate]))
    intro hwaiting
    exact hidle (hh.not_blocked (hcontrol.symm.trans hwaiting)).1

/-- Behind the `wait` the flag is clear. -/
theorem Shadows.wake (h : Shadows n s) (hwait : s.control = .waiting) (hnotify : s'.impl.notify = false)
    (hcontrol : s'.control ≠ .waiting) :
    Follows n s' := by
  have hshadows : Shadows {} s' := ⟨hnotify.symm, iff_of_true rfl hcontrol⟩
  have hresume (n : Notify) (hn : n.waiter = .woken) : n.step .resume = some {} := by
    simp [Notify.step, hn]
  rcases hn : n.waiter with _ | _ | _
  · exact absurd hwait (h.waiter.1 hn)
  · have hwakeUp : n.step .wakeUp = some { n with waiter := .woken } := by simp [Notify.step, hn]
    exact ⟨[.wakeUp, .resume], {}, .cons trivial hwakeUp (.cons trivial (hresume _ rfl) (.nil _)), hshadows⟩
  · exact .of_step .resume {} (hresume n hn) hshadows

theorem Shadows.step (h : Shadows n s) (hready : s.control.Ready s.impl) (hstep : s.step a = some s') :
    Follows n s' := by
  cases stepped hready hstep with
  | setting _ _ _ _ notify _ _ _ _ _ hnotify =>
    by_cases hopen : a = .openCall
    · subst hopen
      refine .of_step .notify _ rfl ⟨by simp [hnotify], ?_⟩
      rw [← h.waiter]
      show (if n.waiter = .blocked then Waiter.woken else n.waiter) = .outside ↔ n.waiter = .outside
      split_ifs with hblocked
      · simp [hblocked]
      · rfl
    · exact h.same (by simp [hnotify, hopen]) Iff.rfl
  | failed | called | enqueued | awoken => exact h.same rfl Iff.rfl
  | stopped hstate => exact h.same rfl (by simp [hstate])
  | thread hstate hh => exact h.thread hstate hh rfl rfl
  | check hstate => exact h.same rfl (by simp [hstate])
  | wake hwait => exact h.wake hwait rfl (by simp)

end Shadow

/-- **The machine waits as `Notify` does**: every run of the system goes with a run of `Notify` that has the
flag of the machine, and whose waiter is inside `wait` when the thread is in the `wait` of `idleSystem`. -/
theorem shadowed_of_run {address : Byte} {guard : System → Action → Prop} {as : List Action} {s : System}
    (hrun : Run System.step guard (System.init address) as s) :
    ∃ bs n, Run Notify.step (fun _ _ => True) {} bs n ∧ Shadows n s := by
  refine (hrun.invariant (I := fun s => Sound address s ∧
    ∃ bs n, Run Notify.step (fun _ _ => True) {} bs n ∧ Shadows n s) ?_ ?_).2
  · rintro s a s' ⟨hsound, bs, n, hbs, hn⟩ - hstep
    obtain ⟨cs, n', hcs, hn'⟩ := hn.step hsound.control hstep
    exact ⟨hsound.step hstep, bs ++ cs, n', hbs.append hcs, hn'⟩
  · exact ⟨sound_init address, [], {}, .nil _, rfl, by simp [System.init]⟩

end EBusFsm

import EBusFsm.Machine.Stranded

/-!
# The commands `open` and `close`

`close` sets `m_close`, which `run` tests behind every handler and `idleSystem` clears; `open` sets the flag
of `Notify`, which the `wait` of `idleSystem` clears only if it had to wait. So both flags outlive the
command that set them. `obeyed` says that the last command wins in every run in which `idleSystem` finds the
flag of `Notify` set exactly when the last command is `open`, and no `close` comes between the test of
`m_close` and `openDevice` without a later `open`.
-/

namespace EBusFsm

open Prog

/-! ### The property -/

/-- The entry of a history runs the handler of the state. -/
def Executes (state : State) (e : System × Action) : Prop :=
  ∃ env, e.2 = .thread env ∧ e.1.control = .loop state

/-- The entry runs `idleSystem`, which blocks. -/
def Blocks (e : System × Action) : Prop :=
  Executes .idleSystem e ∧ ∃ s, e.1.step e.2 = some s ∧ s.control = .waiting

/-- The last `open` or `close`. -/
def lastCommand (as : List Action) : Option Action :=
  as.reverse.find? fun a => a == .openCall || a == .closeCall

def OpenLast (as : List Action) : Prop := lastCommand as = some .openCall

/-- A step of the thread. -/
def Action.own : Action → Bool
  | .thread _ | .check | .wake => true
  | _ => false

/-- `mid` is what came after an `open` that met the machine in the `wait` of `idleSystem`, and no `close`. -/
def Requested (before mid : List (System × Action)) : Prop :=
  ∃ earlier s, before = earlier ++ (s, .openCall) :: mid ∧ s.control = .waiting ∧
    .closeCall ∉ mid.map Prod.snd

/-- The last command wins. Once `idleSystem` ran, `openDevice` runs only if the last command is `open`. An
`open` that meets the machine in the `wait`, with no later `close`, makes it run `openDevice` before it
blocks again, and within five steps of its own. -/
structure Obeyed (before : List (System × Action)) (e : System × Action) : Prop where
  opened : Executes .openDevice e → (∃ e' ∈ before, Executes .idleSystem e') →
    OpenLast (before.map Prod.snd)
  answered : ∀ mid, Requested before mid → Blocks e → ∃ e' ∈ mid, Executes .openDevice e'
  followed : ∀ mid, Requested before mid → 5 ≤ (mid.map Prod.snd).countP Action.own →
    ∃ e' ∈ mid, Executes .openDevice e'

/-- A wake-up is not spurious, and `m_running` stays set. -/
def Prompted (s : System) (a : Action) : Prop :=
  (a = .wake → s.impl.notify = true) ∧ a ≠ .halt

/-! ### The condition -/

/-- What came behind the last test of `m_close`. -/
def sinceTest (as : List Action) : List Action := (as.reverse.takeWhile fun a => a != .check).reverse

/-- `idleSystem` finds the flag of `Notify` set exactly if the last command is `open`. A `close` that comes
between the last test of `m_close` and `openDevice` is followed by an `open`. -/
structure Current (before : List (System × Action)) (e : System × Action) : Prop where
  idle : Executes .idleSystem e → (e.1.impl.notify = true ↔ OpenLast (before.map Prod.snd))
  opening : Executes .openDevice e → (∃ e' ∈ before, Executes .idleSystem e') →
    lastCommand (sinceTest (before.map Prod.snd)) ≠ some .closeCall

/-! ### The last command -/

theorem lastCommand_snoc (as : List Action) (a : Action) :
    lastCommand (as ++ [a]) = if a = .openCall ∨ a = .closeCall then some a else lastCommand as := by
  unfold lastCommand
  rw [List.reverse_append, List.reverse_singleton, List.singleton_append, List.find?_cons]
  cases a <;> rfl

theorem openLast_openCall (as : List Action) : OpenLast (as ++ [.openCall]) := by
  unfold OpenLast
  rw [lastCommand_snoc, if_pos (.inl rfl)]

theorem OpenLast.snoc {as : List Action} {a : Action} (h : OpenLast as) (ha : a ≠ .closeCall) :
    OpenLast (as ++ [a]) := by
  unfold OpenLast
  rw [lastCommand_snoc]
  split_ifs with hcommand
  · rw [hcommand.resolve_right ha]
  · exact h

theorem OpenLast.append {as as' : List Action} (h : OpenLast as) (hclose : .closeCall ∉ as') :
    OpenLast (as ++ as') := by
  induction as' generalizing as with
  | nil =>
    rw [List.append_nil]
    exact h
  | cons a as' ih =>
    rw [List.mem_cons, not_or] at hclose
    rw [List.append_cons]
    exact ih (h.snoc fun heq => hclose.1 heq.symm) hclose.2

theorem sinceTest_snoc (as : List Action) (a : Action) :
    sinceTest (as ++ [a]) = if a = .check then [] else sinceTest as ++ [a] := by
  unfold sinceTest
  rw [List.reverse_append, List.reverse_singleton, List.singleton_append, List.takeWhile_cons]
  by_cases ha : a = .check
  · subst ha
    rfl
  · rw [if_pos (bne_iff_ne.2 ha), if_neg ha, List.reverse_cons]

/-- A command behind the last test is the last one of all. -/
theorem openLast_of_sinceTest {as : List Action} (h : OpenLast (sinceTest as)) : OpenLast as := by
  unfold OpenLast lastCommand sinceTest at *
  rw [List.reverse_reverse] at h
  obtain ⟨rest, hrest⟩ := List.takeWhile_prefix (l := as.reverse) fun a => a != Action.check
  rw [← hrest, List.find?_append, h]
  rfl

/-- A list with a `close` in it has a last command. -/
theorem openLast_of_mem {as : List Action} (h : .closeCall ∈ as) (hne : lastCommand as ≠ some .closeCall) :
    OpenLast as := by
  unfold OpenLast
  unfold lastCommand at *
  obtain ⟨a, ha⟩ := Option.isSome_iff_exists.1
    (List.find?_isSome.2 ⟨.closeCall, List.mem_reverse.2 h, rfl⟩ :
      (as.reverse.find? fun a => a == .openCall || a == .closeCall).isSome = true)
  have hcommand := List.find?_some ha
  rw [Bool.or_eq_true, beq_iff_eq, beq_iff_eq] at hcommand
  rw [ha] at hne ⊢
  rcases hcommand with rfl | rfl
  · rfl
  · exact absurd rfl hne

/-- After an `open` and no `close`. -/
theorem Requested.openLast {before mid : List (System × Action)} (h : Requested before mid) :
    OpenLast (before.map Prod.snd) := by
  obtain ⟨earlier, s, rfl, -, hclose⟩ := h
  rw [List.map_append, List.map_cons, List.append_cons]
  exact (openLast_openCall _).append hclose

/-! ### The flags -/

/-- If the last command is not `open`, either `m_close` is set or the machine waits for `open`. -/
def Stale (before : List (System × Action)) (s : System) : Prop :=
  (∃ e ∈ before, Executes .idleSystem e) → ¬ OpenLast (before.map Prod.snd) →
    s.impl.close = true ∨ s.control = .waiting ∧ s.impl.notify = false

/-- The test sends the machine to `idleSystem` if `m_close` is set, so that a handler other than `idleSystem`
finds it set only if `close` was called behind the test. -/
def Tested (before : List (System × Action)) (s : System) : Prop :=
  ∀ state, s.control = .loop state → state ≠ .idleSystem → s.impl.close = true →
    .closeCall ∈ sinceTest (before.map Prod.snd)

/-- How far the machine is on its way to `openDevice` after `n` steps of its own. -/
inductive Pursued (s : System) : Nat → Prop
  | notified (hcontrol : s.control = .waiting) (hnotify : s.impl.notify = true) : Pursued s 0
  | awake (hcontrol : s.control = .check .openDevice) : Pursued s 1
  | tested (hcontrol : s.control = .loop .openDevice ∨ s.control = .loop .idleSystem) : Pursued s 2
  | cleared (hcontrol : s.control = .check .openDevice) (hclose : s.impl.close = false) : Pursued s 3
  | ahead (hcontrol : s.control = .loop .openDevice) : Pursued s 4

theorem not_executes_of_sets {s : System} {a : Action} (h : a.sets = true) (state : State) :
    ¬ Executes state (s, a) := by
  rintro ⟨env, rfl, -⟩
  exact nomatch h

theorem Executes.snoc {before : List (System × Action)} {s : System} {a : Action} {state : State}
    (h : ∃ e ∈ before ++ [(s, a)], Executes state e) (hno : ¬ Executes state (s, a)) :
    ∃ e ∈ before, Executes state e := by
  obtain ⟨e, he, hexec⟩ := h
  rcases List.mem_append.1 he with he | he
  · exact ⟨e, he, hexec⟩
  · rw [List.mem_singleton.1 he] at hexec
    exact absurd hexec hno

/-- Without a command the flags change in `idleSystem` and behind the `wait` only. -/
theorem Stale.step {address : Byte} {before : List (System × Action)} {s s' : System} {a : Action}
    (hsound : Sound address s) (hrunning : s.impl.running = true) (h : Stale before s)
    (hguard : Prompted s a) (hcurrent : Current before (s, a)) (hstep : s.step a = some s') :
    Stale (before ++ [(s, a)]) s' := by
  intro hidled hlast
  rw [List.map_append] at hlast
  have hbefore : a ≠ .closeCall → ¬ OpenLast (before.map Prod.snd) := fun hclose hopen =>
    hlast (hopen.snoc hclose)
  cases stepped hsound.control hstep with
  | setting a _ close _ notify _ _ hsets _ hclose hnotify =>
    by_cases hcall : a = .closeCall
    · refine .inl ?_
      rw [hclose, decide_eq_true hcall, Bool.or_true]
    · have hopen : a ≠ .openCall := by
        rintro rfl
        exact hlast (openLast_openCall _)
      rw [decide_eq_false hcall, Bool.or_false] at hclose
      rw [decide_eq_false hopen, Bool.or_false] at hnotify
      subst hclose hnotify
      exact h (Executes.snoc hidled (not_executes_of_sets hsets _)) (hbefore hcall)
  | failed | called | enqueued | awoken =>
    exact h (Executes.snoc hidled fun ⟨_, hthread, _⟩ => nomatch hthread) (hbefore (by simp))
  | stopped _ hstopped =>
    rw [hrunning] at hstopped
    exact nomatch hstopped
  | @thread state env result impl' evs hstate hh =>
    by_cases hidle : state = .idleSystem
    · subst hidle
      have hnotify : s.impl.notify = false := by
        rw [← Bool.not_eq_true]
        exact fun hset => hbefore (by simp) ((hcurrent.idle ⟨env, rfl, hstate⟩).1 hset)
      have hwait := hh.blocked hnotify
      obtain ⟨-, -, rfl⟩ := hh.not_blocked hwait
      exact .inr ⟨hwait, hnotify⟩
    · have hno : ¬ Executes .idleSystem (s, .thread env) := by
        rintro ⟨-, -, hcontrol⟩
        exact hidle (by simpa using hstate.symm.trans hcontrol)
      rcases h (Executes.snoc hidled hno) (hbefore (by simp)) with hclose | ⟨hwait, -⟩
      · exact .inl ((hh.close hidle).trans hclose)
      · exact nomatch hstate.symm.trans hwait
  | check hstate =>
    rcases h (Executes.snoc hidled fun ⟨_, hthread, _⟩ => nomatch hthread) (hbefore (by simp)) with
      hclose | ⟨hwait, -⟩
    · exact .inl hclose
    · exact nomatch hstate.symm.trans hwait
  | wake =>
    rcases h (Executes.snoc hidled fun ⟨_, hthread, _⟩ => nomatch hthread) (hbefore (by simp)) with
      hclose | ⟨-, hnotify⟩
    · exact .inl hclose
    · rw [hguard.1 rfl] at hnotify
      exact nomatch hnotify

theorem Tested.step {address : Byte} {before : List (System × Action)} {s s' : System} {a : Action}
    (hsound : Sound address s) (h : Tested before s) (hstep : s.step a = some s') :
    Tested (before ++ [(s, a)]) s' := by
  intro state hcontrol hne hclose
  rw [List.map_append, List.map_singleton, sinceTest_snoc]
  have hkept : a ≠ .check → s.control = .loop state → s.impl.close = true →
      .closeCall ∈ if a = .check then [] else sinceTest (before.map Prod.snd) ++ [a] := by
    intro ha hcontrol hclose
    rw [if_neg ha]
    exact List.mem_append_left _ (h state hcontrol hne hclose)
  cases stepped hsound.control hstep with
  | setting a _ close _ _ _ _ hsets _ hclose' =>
    have ha : a ≠ .check := by
      rintro rfl
      exact nomatch hsets
    by_cases hcall : a = .closeCall
    · rw [if_neg ha, hcall]
      exact List.mem_append_right _ (List.mem_singleton_self _)
    · rw [decide_eq_false hcall, Bool.or_false] at hclose'
      exact hkept ha hcontrol (hclose'.symm.trans hclose)
  | failed | called | enqueued | awoken => exact hkept nofun hcontrol hclose
  | @thread _ _ result =>
    rcases result with (_ | _ | _ | _) | _ <;> exact nomatch hcontrol
  | check =>
    have hclose' : s.impl.close = true := hclose
    rw [hclose'] at hcontrol
    exact absurd (Control.loop.inj hcontrol).symm hne
  | stopped | wake => exact nomatch hcontrol

/-- An action of another thread that is no `close` leaves the machine where it is. -/
theorem Pursued.other {s s' : System} {n : Nat} (h : Pursued s n) (hcontrol : s'.control = s.control)
    (hclose : s'.impl.close = s.impl.close) (hnotify : s.impl.notify = true → s'.impl.notify = true) :
    Pursued s' n := by
  cases h with
  | notified hwait hset => exact .notified (hcontrol.trans hwait) (hnotify hset)
  | awake hc => exact .awake (hcontrol.trans hc)
  | tested hc => exact .tested (hc.imp hcontrol.trans hcontrol.trans)
  | cleared hc hcl => exact .cleared (hcontrol.trans hc) (hclose.trans hcl)
  | ahead hc => exact .ahead (hcontrol.trans hc)

/-- A step brings the machine closer to `openDevice`, or is one of another thread. -/
theorem Pursued.step {address : Byte} {s s' : System} {a : Action} {n : Nat}
    (hsound : Sound address s) (hrunning : s.impl.running = true) (h : Pursued s n)
    (hclose : a ≠ .closeCall) (hidle : Executes .idleSystem (s, a) → s.impl.notify = true)
    (hstep : s.step a = some s') :
    Executes .openDevice (s, a) ∨ Pursued s' (n + [a].countP Action.own) := by
  cases stepped hsound.control hstep with
  | setting a _ close _ notify _ _ hsets _ hclose' hnotify =>
    rw [decide_eq_false hclose, Bool.or_false] at hclose'
    have hown : [a].countP Action.own = 0 := by
      cases a <;> first | rfl | exact nomatch hsets
    rw [hown]
    refine .inr (h.other rfl hclose' fun hset => ?_)
    rw [hnotify, hset, Bool.true_or]
  | failed | called | enqueued | awoken => exact .inr (h.other rfl rfl id)
  | stopped _ hstopped =>
    rw [hrunning] at hstopped
    exact nomatch hstopped
  | @thread state env result impl' evs hstate hh =>
    cases h with
    | tested hcontrol =>
      rcases hcontrol with hcontrol | hcontrol
      · exact .inl ⟨env, rfl, hcontrol⟩
      · obtain rfl : state = .idleSystem := by simpa using hstate.symm.trans hcontrol
        obtain ⟨rfl, ⟨-, rfl⟩ | ⟨hnotify, -⟩⟩ := hh.idle_cases
        · exact .inr (.cleared rfl rfl)
        · rw [hidle ⟨env, rfl, hstate⟩] at hnotify
          exact nomatch hnotify
    | ahead hcontrol => exact .inl ⟨env, rfl, hcontrol⟩
    | notified hcontrol => exact nomatch hstate.symm.trans hcontrol
    | awake hcontrol => exact nomatch hstate.symm.trans hcontrol
    | cleared hcontrol => exact nomatch hstate.symm.trans hcontrol
  | @check state hstate =>
    refine .inr ?_
    cases h with
    | awake hcontrol =>
      obtain rfl : state = .openDevice := by simpa using hstate.symm.trans hcontrol
      refine .tested ?_
      show Control.loop (if s.impl.close then .idleSystem else .openDevice) = _ ∨ _
      split_ifs
      · exact .inr rfl
      · exact .inl rfl
    | cleared hcontrol hclear =>
      obtain rfl : state = .openDevice := by simpa using hstate.symm.trans hcontrol
      refine .ahead ?_
      show Control.loop (if s.impl.close then .idleSystem else .openDevice) = _
      rw [hclear]
      rfl
    | notified hcontrol => exact nomatch hstate.symm.trans hcontrol
    | tested hcontrol => rcases hcontrol with hcontrol | hcontrol <;> exact nomatch hstate.symm.trans hcontrol
    | ahead hcontrol => exact nomatch hstate.symm.trans hcontrol
  | wake hwait =>
    refine .inr ?_
    cases h with
    | notified => exact .awake rfl
    | awake hcontrol => exact nomatch hwait.symm.trans hcontrol
    | tested hcontrol => rcases hcontrol with hcontrol | hcontrol <;> exact nomatch hwait.symm.trans hcontrol
    | cleared hcontrol => exact nomatch hwait.symm.trans hcontrol
    | ahead hcontrol => exact nomatch hwait.symm.trans hcontrol

/-- After an `open` that met the machine in the `wait`, `openDevice` ran or is pursued. -/
def Chased (before : List (System × Action)) (s : System) : Prop :=
  ∀ mid, Requested before mid → (∃ e ∈ mid, Executes .openDevice e) ∨
    Pursued s ((mid.map Prod.snd).countP Action.own)

/-- The request is the last entry, or was there before it. -/
theorem Requested.snoc {before mid : List (System × Action)} {s : System} {a : Action}
    (h : Requested (before ++ [(s, a)]) mid) :
    mid = [] ∧ a = .openCall ∧ s.control = .waiting ∨
      ∃ mid', mid = mid' ++ [(s, a)] ∧ Requested before mid' ∧ a ≠ .closeCall := by
  obtain ⟨earlier, s₀, heq, hwait, hclose⟩ := h
  rcases List.eq_nil_or_concat mid with rfl | ⟨mid', e, rfl⟩
  · obtain ⟨-, hlast⟩ := List.append_inj' heq rfl
    obtain ⟨rfl, rfl⟩ : s = s₀ ∧ a = .openCall := by simpa using hlast
    exact .inl ⟨rfl, rfl, hwait⟩
  · rw [List.concat_eq_append, ← List.cons_append, ← List.append_assoc] at heq
    obtain ⟨rfl, hlast⟩ := List.append_inj' heq rfl
    obtain rfl : (s, a) = e := by simpa using hlast
    rw [List.concat_eq_append, List.map_append, List.mem_append, not_or] at hclose
    refine .inr ⟨mid', List.concat_eq_append, ⟨earlier, s₀, rfl, hwait, hclose.1⟩, ?_⟩
    rintro rfl
    exact hclose.2 (List.mem_singleton_self _)

theorem Chased.step {address : Byte} {before : List (System × Action)} {s s' : System} {a : Action}
    (hsound : Sound address s) (hrunning : s.impl.running = true) (h : Chased before s)
    (hcurrent : Current before (s, a)) (hstep : s.step a = some s') :
    Chased (before ++ [(s, a)]) s' := by
  intro mid hrequested
  rcases hrequested.snoc with ⟨rfl, rfl, hwait⟩ | ⟨mid', rfl, hmid, hclose⟩
  · cases hstep
    exact .inr (.notified hwait rfl)
  · rcases h mid' hmid with ⟨e, he, hexec⟩ | hpursued
    · exact .inl ⟨e, List.mem_append_left _ he, hexec⟩
    · have hidle : Executes .idleSystem (s, a) → s.impl.notify = true := fun hexec =>
        (hcurrent.idle hexec).2 hmid.openLast
      rcases hpursued.step hsound hrunning hclose hidle hstep with hexec | hpursued
      · exact .inl ⟨_, List.mem_append_right _ (List.mem_singleton_self _), hexec⟩
      · rw [List.map_append, List.countP_append]
        exact .inr hpursued

theorem running_step {address : Byte} {s s' : System} {a : Action} (hsound : Sound address s)
    (h : s.impl.running = true) (hguard : Prompted s a) (hstep : s.step a = some s') :
    s'.impl.running = true := by
  cases stepped hsound.control hstep with
  | setting a _ _ _ _ _ _ _ hrunning => exact (hrunning.resolve_right hguard.2).trans h
  | thread _ hh => exact hh.running.trans h
  | _ => exact h

theorem Pursued.lt {s : System} {n : Nat} (h : Pursued s n) : n < 5 := by
  cases h <;> decide

theorem obeyed_entry {address : Byte} {before : List (System × Action)} {s : System} {a : Action}
    (hsound : Sound address s) (hstale : Stale before s) (htested : Tested before s) (hchased : Chased before s)
    (hcurrent : Current before (s, a)) : Obeyed before (s, a) := by
  refine ⟨fun hexec hidled => ?_, fun mid hrequested hblocks => ?_, fun mid hrequested hsteps => ?_⟩
  · by_contra hlast
    have hbehind := hcurrent.opening hexec hidled
    obtain ⟨-, -, hcontrol⟩ := hexec
    rcases hstale hidled hlast with hclose | ⟨hwait, -⟩
    · have hmem := htested .openDevice hcontrol nofun hclose
      exact hlast (openLast_of_sinceTest (openLast_of_mem hmem hbehind))
    · exact nomatch hwait.symm.trans hcontrol
  · refine (hchased mid hrequested).resolve_right fun _ => ?_
    obtain ⟨hexec, s', hstep, hwait⟩ := hblocks
    have hnotify := (hcurrent.idle hexec).2 hrequested.openLast
    obtain ⟨env, rfl, hcontrol⟩ := hexec
    cases stepped hsound.control hstep with
    | setting _ _ _ _ _ _ _ hsets => exact nomatch hsets
    | stopped => exact nomatch hwait
    | thread hstate hh =>
      obtain ⟨-, hclear, -⟩ := hh.not_blocked hwait
      rw [hnotify] at hclear
      exact nomatch hclear
  · refine (hchased mid hrequested).resolve_right fun hpursued => ?_
    exact absurd hpursued.lt (Nat.not_lt.2 hsteps)

/-- **The last command wins**, in every run in which `idleSystem` finds the flag of `Notify` set exactly if
that command is `open`, and no `close` without a later `open` slips in between the last test of `m_close` and
`openDevice`. -/
theorem obeyed {address : Byte} {as : List Action} {s : System}
    (hrun : Run System.step Prompted (System.init address) as s)
    (hcurrent : Justified Current (visited System.step (System.init address) as)) :
    Justified Obeyed (visited System.step (System.init address) as) := by
  have hinv := hrun.history (I := fun before s => Justified Current before → Sound address s ∧
      s.impl.running = true ∧ Stale before s ∧ Tested before s ∧ Chased before s ∧ Justified Obeyed before)
    (fun before s a s' h hguard hstep hcurrent => by
      obtain ⟨hsound, hrunning, hstale, htested, hchased, hobeyed⟩ := h hcurrent.of_append
      have hlast := hcurrent.last
      exact ⟨hsound.step hstep, running_step hsound hrunning hguard hstep,
        hstale.step hsound hrunning hguard hlast hstep, htested.step hsound hstep,
        hchased.step hsound hrunning hlast hstep, hobeyed.snoc (obeyed_entry hsound hstale htested hchased hlast)⟩)
    (fun _ => by
      refine ⟨sound_init address, rfl, ?_, ?_, ?_, .nil⟩
      · rintro ⟨e, he, -⟩
        exact absurd he List.not_mem_nil
      · exact fun _ _ _ hclose => nomatch hclose
      · rintro mid ⟨earlier, s, heq, -⟩
        simp at heq)
  exact (hinv hcurrent).2.2.2.2.2

/-- The test of `Prompted`. -/
def prompted (s : System) : Action → Bool
  | .wake => s.impl.notify
  | .halt => false
  | _ => true

theorem prompted_of_test (s : System) (a : Action) (h : prompted s a = true) : Prompted s a := by
  refine ⟨?_, ?_⟩
  · rintro rfl
    exact h
  · rintro rfl
    exact nomatch h

/-- The test of `Current`. -/
def current (before : List (System × Action)) : System × Action → Bool
  | (s, .thread _) =>
    (s.control != .loop .idleSystem ||
      s.impl.notify == (lastCommand (before.map Prod.snd) == some .openCall)) &&
    (s.control != .loop .openDevice || lastCommand (sinceTest (before.map Prod.snd)) != some .closeCall)
  | _ => true

theorem current_of_test (before : List (System × Action)) (e : System × Action)
    (h : current before e = true) : Current before e := by
  refine ⟨?_, ?_⟩
  · rintro ⟨env, hthread, hidle⟩
    obtain ⟨s, a⟩ := e
    obtain rfl : a = .thread env := hthread
    rw [current, Bool.and_eq_true] at h
    have hidle' : s.control = .loop .idleSystem := hidle
    have htest := h.1
    simp only [hidle', bne_self_eq_false, Bool.false_or, beq_iff_eq] at htest
    rw [htest, beq_iff_eq]
    rfl
  · rintro ⟨env, hthread, hopening⟩ -
    obtain ⟨s, a⟩ := e
    obtain rfl : a = .thread env := hthread
    rw [current, Bool.and_eq_true] at h
    have hopening' : s.control = .loop .openDevice := hopening
    have htest := h.2
    simp only [hopening', bne_self_eq_false, Bool.false_or, bne_iff_ne] at htest
    exact htest

/-- The device is opened and closed, and opened again while the machine waits. -/
def reopen : List Action :=
  handlers [[0xaa]] ++ closeBus ++ [.openCall, .wake, .check, .thread { reads := [.byte 0xaa] }]

theorem obeyed_sample :
    ∃ s, execute System.step prompted (System.init 0xff) reopen = some s ∧
      s.impl.deviceOpen = true ∧ Justified Obeyed (visited System.step (System.init 0xff) reopen) := by
  have hrun : (execute System.step prompted (System.init 0xff) reopen).map
      (fun s => s.impl.deviceOpen) = some true := by decide +kernel
  obtain ⟨s, hs, hopen⟩ := Option.map_eq_some_iff.1 hrun
  have htest : testAll current [] (visited System.step (System.init 0xff) reopen) = true := by
    decide +kernel
  exact ⟨s, hs, hopen, obeyed (run_of_execute prompted_of_test hs) (.of_testAll current_of_test htest)⟩

/-- `open` is called while the device is open, and then `close`: the device is closed and opened again. -/
theorem disobeyed_sample :
    ¬ ∀ (address : Byte) (as : List Action) (s : System),
      Run System.step Prompted (System.init address) as s →
      Justified Obeyed (visited System.step (System.init address) as) := by
  intro h
  let open₁ : List Action := handlers [[0xaa]] ++ [.openCall, .closeCall, .thread { reads := [.byte 0x10] }, .check]
  let close₁ : List Action := [.thread {}, .check]
  obtain ⟨s₁, hs₁, hidle⟩ := Option.map_eq_some_iff.1
    (show (execute System.step prompted (System.init 0xff) open₁).map System.control =
      some (.loop .idleSystem) by decide +kernel)
  obtain ⟨s₂, hs₂, hopening⟩ := Option.map_eq_some_iff.1
    (show (execute System.step prompted (System.init 0xff) (open₁ ++ close₁)).map System.control =
      some (.loop .openDevice) by decide +kernel)
  obtain ⟨s, hs⟩ := Option.isSome_iff_exists.1
    (show (execute System.step prompted (System.init 0xff) (open₁ ++ close₁ ++ [.thread {}])).isSome by
      decide +kernel)
  have hrun₁ := run_of_execute prompted_of_test hs₁
  have hrun₂ := run_of_execute prompted_of_test hs₂
  have hobeyed := h 0xff _ s (run_of_execute prompted_of_test hs)
  rw [hrun₂.visited_append] at hobeyed
  have hopened := (hobeyed _ (s₂, .thread {}) _ rfl).opened ⟨{}, rfl, hopening⟩ ?_
  · rw [hrun₂.visited_map_snd] at hopened
    have hclosed : lastCommand (open₁ ++ close₁) = some .closeCall := by decide
    exact nomatch hclosed.symm.trans hopened
  · rw [hrun₁.visited_append]
    exact ⟨(s₁, .thread {}), List.mem_append_right _ List.mem_cons_self, {}, rfl, hidle⟩

end EBusFsm

import EBusFsm.Lib.Bus
import EBusFsm.Machine.Causal
import EBusFsm.Machine.System

/-!
# A machine as a party on the bus

`Listens env s l s'` says that the thread of the machine `s`, left alone by the other threads, reads the
stream `l` and then waits in `s'` for the next byte. The result is unique, and on a longer stream the
thread does the same first (`Listens.cut`), so the machine is a `Listener`: its ticks are the bytes that it
wrote and read.
-/

namespace EBusFsm

open Prog

/-- What the events are on the wire. -/
def ticks : List Event → List (Tick Byte)
  | [] => []
  | .wrote b :: evs => .wrote b :: ticks evs
  | .got b :: evs => .got b :: ticks evs
  | _ :: evs => ticks evs

/-- The thread of `s` reads the stream and waits for the next byte. -/
inductive Listens (env : Env) : System → List Byte → System → Prop
  | wait {s s' : System} {l : List Byte} (hstep : s.step (.thread (env.on l)) = some s')
      (hhung : s'.control = .hung) : Listens env s l s'
  | round {s s₁ s₂ s' : System} {evs : List Event} {l : List Byte}
      (hstep : s.step (.thread (env.on (gotBytes evs ++ l))) = some s₁) (hlog : s₁.log = s.log ++ evs)
      (hcheck : s₁.step .check = some s₂) (hrest : Listens env s₂ l s') :
      Listens env s (gotBytes evs ++ l) s'

/-! ### Ticks -/

@[simp] theorem ticks_append (l r : List Event) : ticks (l ++ r) = ticks l ++ ticks r := by
  induction l with
  | nil => rfl
  | cons e l ih => cases e <;> simp [ticks, ih]

@[simp] theorem gots_ticks (evs : List Event) : Tick.gots (ticks evs) = gotBytes evs := by
  induction evs with
  | nil => rfl
  | cons e evs ih =>
    cases e with
    | got b => exact congrArg (b :: ·) ih
    | _ => exact ih

@[simp] theorem ticks_map_got (l : List Byte) : ticks (l.map .got) = l.map .got := by
  induction l with
  | nil => rfl
  | cons b l ih => exact congrArg (.got b :: ·) ih

/-! ### Steps -/

theorem runThread_eq {s : System} (hrunning : s.impl.running = true) (state : State) (env : Env) :
    s.runThread state env =
      { s with
        impl := (exec (runState state) { impl := s.impl, env }).2.impl
        control := .after (exec (runState state) { impl := s.impl, env }).1
        completed := notifiedMessages (exec (runState state) { impl := s.impl, env }).2.events ++
          s.completed
        log := s.log ++ (exec (runState state) { impl := s.impl, env }).2.events } := by
  unfold System.runThread
  rw [hrunning]
  rfl

/-- A step of a thread that does not stop. -/
theorem thread_step {s s' : System} {env : Env} (hstep : s.step (.thread env) = some s')
    (hcontrol : s'.control ≠ .stopped) : ∃ state, s.control = .loop state ∧ s.impl.running = true ∧
      s' = s.runThread state env := by
  unfold System.step at hstep
  cases hstate : s.control with
  | loop state =>
    simp only [hstate, Option.some.injEq] at hstep
    refine ⟨state, rfl, ?_, hstep.symm⟩
    by_contra hrunning
    refine hcontrol ?_
    rw [← hstep, System.runThread, if_pos (by simpa using hrunning)]
  | _ => simp [hstate] at hstep

theorem check_step {s s' : System} (hstep : s.step .check = some s') : ∃ state, s.control = .check state ∧
    s' = { s with control := .loop (if s.impl.close then .idleSystem else state) } := by
  unfold System.step at hstep
  cases hstate : s.control with
  | check state =>
    simp only [hstate, Option.some.injEq] at hstep
    exact ⟨state, rfl, hstep.symm⟩
  | _ => simp [hstate] at hstep

theorem after_eq_hung {result : Except Stop State} (h : Control.after result = .hung) :
    result = .error .starved := by
  rcases result with e | state
  · cases e <;> first | rfl | exact nomatch h
  · exact nomatch h

/-- What a handler does on a stream, and what it does on a longer one. -/
inductive StepCut (env : Env) (s : System) (state : State) (l : List Byte) (b : Byte) (r : List Byte) : Prop
  | done (evs : List Event) (l' : List Byte) (hl : l = gotBytes evs ++ l')
      (hne : (s.runThread state (env.on l)).control ≠ .hung)
      (hlog : (s.runThread state (env.on l)).log = s.log ++ evs)
      (heq : s.runThread state (env.on (l ++ b :: r)) = s.runThread state (env.on l))
  | starved (evs : List Event) (hhung : (s.runThread state (env.on l)).control = .hung)
      (hlog : (s.runThread state (env.on (l ++ b :: r))).log =
        (s.runThread state (env.on l)).log ++ .got b :: evs)

theorem stepCut (env : Env) {s : System} (hrunning : s.impl.running = true) (state : State) (l : List Byte)
    (b : Byte) (r : List Byte) : StepCut env s state l b r := by
  have hon : ∀ l, ({ impl := s.impl, env } : World).on l = { impl := s.impl, env := env.on l } :=
    fun _ => rfl
  have hcausal := causal_runState state
  cases hcausal.cut { impl := s.impl, env } l (b :: r) with
  | done result w' l' hne hx hy =>
    obtain ⟨w'', evs, l'', hw'', hevs, hl⟩ := hcausal.reads { impl := s.impl, env } l
    rw [hx] at hw''
    have hworld : w'.on l' = w''.on l'' := hw''
    rw [hon] at hx hy
    have hevs' : w'.events = evs := by
      show (w'.on l').events = evs
      rw [hworld]
      exact hevs
    refine .done evs l' ?_ ?_ ?_ ?_
    · rw [hl, World.on_inj hworld]
    · intro hhung
      rw [runThread_eq hrunning, hx] at hhung
      exact hne (after_eq_hung hhung)
    · rw [runThread_eq hrunning, hx]
      exact congrArg (s.log ++ ·) hevs'
    · rw [runThread_eq hrunning, runThread_eq hrunning, hx, hy]
      rfl
  | starved w' hx hy =>
    obtain ⟨w'', l'', evs, hw'', hevs⟩ := hy b r rfl
    rw [hon] at hx hw''
    refine .starved evs ?_ ?_
    · rw [runThread_eq hrunning, hx]
      rfl
    · rw [runThread_eq hrunning, runThread_eq hrunning, hx, hw'']
      show s.log ++ w''.events = s.log ++ w'.events ++ _
      rw [hevs, List.append_assoc]

/-- A round reads the front of the stream, and the whole stream if it waits. -/
theorem thread_reads {env : Env} {s : System} (hrunning : s.impl.running = true) (state : State)
    (l : List Byte) : ∃ evs l', (s.runThread state (env.on l)).log = s.log ++ evs ∧
      l = gotBytes evs ++ l' ∧ ((s.runThread state (env.on l)).control = .hung → l' = []) := by
  have hon : ({ impl := s.impl, env } : World).on l = { impl := s.impl, env := env.on l } := rfl
  obtain ⟨w', evs, l', hw', hevs, hl⟩ := (causal_runState state).reads { impl := s.impl, env } l
  rw [hon] at hw'
  refine ⟨evs, l', ?_, hl, fun hhung => ?_⟩
  · rw [runThread_eq hrunning, hw']
    exact congrArg (s.log ++ ·) hevs
  cases (causal_runState state).cut { impl := s.impl, env } l [] with
  | done result w'' l'' hne hx =>
    rw [hon] at hx
    rw [runThread_eq hrunning, hx] at hhung
    exact absurd (after_eq_hung hhung) hne
  | starved w'' hx =>
    rw [hon] at hx
    rw [hx] at hw'
    have hworld : w''.on [] = w'.on l' := hw'
    exact (World.on_inj hworld).symm

/-! ### Streams -/

namespace Listens

variable {env : Env} {s s' : System} {l : List Byte}

/-- The stream is read to its end. -/
theorem log (h : Listens env s l s') : ∃ evs, s'.log = s.log ++ evs ∧ gotBytes evs = l := by
  induction h with
  | @wait s s' l hstep hhung =>
    obtain ⟨state, -, hrunning, rfl⟩ := thread_step hstep (by rw [hhung]; nofun)
    obtain ⟨evs, l', hlog, hl, hend⟩ := thread_reads hrunning state l
    rw [hend hhung, List.append_nil] at hl
    exact ⟨evs, hlog, hl.symm⟩
  | @round s s₁ s₂ s' evs l hstep hlog hcheck hrest ih =>
    obtain ⟨evs', hlog', hgot⟩ := ih
    obtain ⟨state, -, rfl⟩ := check_step hcheck
    refine ⟨evs ++ evs', ?_, ?_⟩
    · rw [hlog', hlog, List.append_assoc]
    · rw [gotBytes_append, hgot]

/-- A machine does one thing on a stream. -/
theorem unique {s'' : System} (h : Listens env s l s') (h' : Listens env s l s'') : s' = s'' := by
  induction h with
  | wait hstep hhung =>
    cases h' with
    | wait hstep' => exact Option.some_inj.1 (hstep.symm.trans hstep')
    | round hstep' _ hcheck =>
      obtain rfl := Option.some_inj.1 (hstep.symm.trans hstep')
      obtain ⟨state, hstate, -⟩ := check_step hcheck
      rw [hhung] at hstate
      exact nomatch hstate
  | @round s s₁ s₂ s' evs l hstep hlog hcheck _ ih =>
    generalize hl : gotBytes evs ++ l = stream at h' hstep
    cases h' with
    | wait hstep' hhung =>
      obtain rfl := Option.some_inj.1 (hstep.symm.trans hstep')
      obtain ⟨state, hstate, -⟩ := check_step hcheck
      rw [hhung] at hstate
      exact nomatch hstate
    | @round _ s₁' s₂' _ evs' l' hstep' hlog' hcheck' hrest' =>
      obtain rfl := Option.some_inj.1 (hstep.symm.trans hstep')
      obtain rfl := List.append_cancel_left (hlog.symm.trans hlog')
      obtain rfl := List.append_cancel_left hl
      obtain rfl := Option.some_inj.1 (hcheck.symm.trans hcheck')
      exact ih hrest'

/-- On a longer stream the machine does the same first. -/
theorem cut {b : Byte} {r : List Byte} (h : Listens env s (l ++ b :: r) s') :
    ∃ s₁ evs, Listens env s l s₁ ∧ s'.log = s₁.log ++ .got b :: evs := by
  generalize hstream : l ++ b :: r = stream at h
  induction h generalizing l with
  | @wait s s' stream hstep hhung =>
    subst hstream
    obtain ⟨state, hstate, hrunning, rfl⟩ := thread_step hstep (by rw [hhung]; nofun)
    cases stepCut env hrunning state l b r with
    | done evs l' hl hne hlog heq =>
      rw [heq] at hhung
      exact absurd hhung hne
    | starved evs hhung' hlog =>
      refine ⟨_, evs, .wait ?_ hhung', hlog⟩
      rw [System.step, hstate]
  | @round s s₁ s₂ s' evs rest hstep hlog hcheck hrest ih =>
    rw [← hstream] at hstep
    obtain ⟨next, hnext, -⟩ := check_step hcheck
    obtain ⟨state, hstate, hrunning, rfl⟩ := thread_step hstep (by rw [hnext]; nofun)
    cases stepCut env hrunning state l b r with
    | done evs' l' hl hne hlog' heq =>
      rw [heq] at hlog hcheck
      obtain rfl := List.append_cancel_left (hlog'.symm.trans hlog)
      rw [hl, List.append_assoc] at hstream
      obtain ⟨s₃, evs'', hlistens, hlog''⟩ := ih (List.append_cancel_left hstream)
      refine ⟨s₃, evs'', ?_, hlog''⟩
      rw [hl]
      refine .round ?_ hlog hcheck hlistens
      rw [← hl, System.step, hstate]
    | starved evs' hhung' hlog' =>
      obtain ⟨evs'', hlog'', -⟩ := hrest.log
      obtain ⟨state', hstate', rfl⟩ := check_step hcheck
      refine ⟨_, evs' ++ evs'', .wait ?_ hhung', ?_⟩
      · rw [System.step, hstate]
      · rw [hlog'']
        show (s.runThread state (env.on (l ++ b :: r))).log ++ evs'' = _
        rw [hlog', List.append_assoc, List.cons_append]

/-- What the machine did on a stream it did on every longer one. -/
theorem log_append {s'' : System} {r : List Byte} (h : Listens env s l s') (h' : Listens env s (l ++ r) s'') :
    ∃ evs, s''.log = s'.log ++ evs := by
  cases r with
  | nil =>
    rw [List.append_nil] at h'
    rw [h.unique h']
    exact ⟨[], (List.append_nil _).symm⟩
  | cons b r =>
    obtain ⟨s₁, evs, h₁, hlog⟩ := h'.cut
    rw [h.unique h₁]
    exact ⟨.got b :: evs, hlog⟩

end Listens

/-- The state in which the thread waits behind the stream, if it does so within `fuel` rounds. -/
def listen (env : Env) : (fuel : Nat) → System → List Byte → Option System
  | 0, _, _ => none
  | fuel + 1, s, l =>
    (s.step (.thread (env.on l))).bind fun s₁ =>
      if s₁.control = .hung then some s₁
      else (s₁.step .check).bind fun s₂ =>
        listen env fuel s₂ (l.drop (gotBytes (s₁.log.drop s.log.length)).length)

theorem listens_of_listen {env : Env} {fuel : Nat} {s s' : System} {l : List Byte}
    (h : listen env fuel s l = some s') : Listens env s l s' := by
  induction fuel generalizing s l with
  | zero => exact nomatch h
  | succ fuel ih =>
    obtain ⟨s₁, hstep, hnext⟩ := Option.bind_eq_some_iff.1 h
    split_ifs at hnext with hhung
    · obtain rfl := Option.some_inj.1 hnext
      exact .wait hstep hhung
    · obtain ⟨s₂, hcheck, hrest⟩ := Option.bind_eq_some_iff.1 hnext
      obtain ⟨next, hnext, -⟩ := check_step hcheck
      obtain ⟨state, -, hrunning, rfl⟩ := thread_step hstep (by rw [hnext]; nofun)
      obtain ⟨evs, l', hlog, rfl, -⟩ := thread_reads hrunning state l
      rw [hlog, List.drop_left, List.drop_left] at hrest
      exact .round hstep hlog hcheck (ih hrest)

/-- The machine as a party on the bus. -/
def System.listener (s : System) (env : Env) : Listener Byte where
  heard l done := ∃ s' evs, Listens env s l s' ∧ s'.log = s.log ++ evs ∧ done = ticks evs
  reads := by
    rintro l done ⟨s', evs, h, hlog, rfl⟩
    obtain ⟨evs', hlog', hgot⟩ := h.log
    obtain rfl := List.append_cancel_left (hlog.symm.trans hlog')
    rw [gots_ticks, hgot]
  unique := by
    rintro l done done' ⟨s', evs, h, hlog, rfl⟩ ⟨s'', evs', h', hlog', rfl⟩
    obtain rfl := h.unique h'
    rw [List.append_cancel_left (hlog.symm.trans hlog')]
  cut := by
    rintro l b r done ⟨s', evs, h, hlog, rfl⟩
    obtain ⟨s₁, evs', h₁, hlog₁⟩ := h.cut
    obtain ⟨evs₁, hevs₁, -⟩ := h₁.log
    refine ⟨ticks evs₁, ticks evs', ⟨s₁, evs₁, h₁, hevs₁, rfl⟩, ?_⟩
    rw [hlog₁, hevs₁, List.append_assoc] at hlog
    rw [← List.append_cancel_left hlog, ticks_append]
    rfl

end EBusFsm

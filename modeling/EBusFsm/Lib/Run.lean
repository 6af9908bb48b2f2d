import Mathlib.Tactic

/-!
# Runs of a step function

A system is a partial step function: `step s a` is the state after the action `a`, or `none` if the
system cannot take it in `s`. `Run step guard s as s'` says that the actions `as` lead from `s` to
`s'` and that every step met the guard, which speaks of the action and of the state before it.

`Run.invariant` is the induction rule: what the start satisfies and every guarded step preserves holds
in every state reached. `run_of_execute` builds a run from an evaluation that tests each step.

`visited` lists the states that a run passed through with the actions taken there; `Run.history` is the
induction rule for what a run has done so far.

A run leaves a history, a list that grows at its end. `Justified P l` says that every entry of the
history `l` satisfies `P`, which speaks of the entries before it.

`Leads R goal n s` says that from `s` the relation `R` comes to the goal in at most `n` rounds, whichever way
it goes, and never gets stuck before; `leads_of_variant` is the rule for a variant.
-/

variable {σ α : Type}

inductive Run (step : σ → α → Option σ) (guard : σ → α → Prop) : σ → List α → σ → Prop
  | nil (s : σ) : Run step guard s [] s
  | cons {s s' s'' : σ} {a : α} {as : List α} (hguard : guard s a) (hstep : step s a = some s')
      (hrun : Run step guard s' as s'') : Run step guard s (a :: as) s''

/-- The state after the actions, if the system can take them all and each passes the test. -/
def execute (step : σ → α → Option σ) (test : σ → α → Bool) : σ → List α → Option σ
  | s, [] => some s
  | s, a :: as => if test s a then (step s a).bind fun s' => execute step test s' as else none

namespace Run

variable {step : σ → α → Option σ} {guard guard' : σ → α → Prop}

/-- What every guarded step preserves holds at the end of a run. -/
theorem invariant {I : σ → Prop}
    (hstep : ∀ s a s', I s → guard s a → step s a = some s' → I s') {s s' : σ} {as : List α}
    (hrun : Run step guard s as s') (hs : I s) : I s' := by
  induction hrun with
  | nil s => exact hs
  | cons hguard h _ ih => exact ih (hstep _ _ _ hs hguard h)

theorem mono (h : ∀ s a, guard s a → guard' s a) {s s' : σ} {as : List α}
    (hrun : Run step guard s as s') : Run step guard' s as s' := by
  induction hrun with
  | nil s => exact .nil s
  | cons hguard hstep _ ih => exact .cons (h _ _ hguard) hstep ih

theorem append {s s' s'' : σ} {as as' : List α} (h : Run step guard s as s')
    (h' : Run step guard s' as' s'') : Run step guard s (as ++ as') s'' := by
  induction h with
  | nil s => exact h'
  | cons hguard hstep _ ih => exact .cons hguard hstep (ih h')

end Run

/-- The states of a run before each step, with the action taken there. -/
def visited (step : σ → α → Option σ) : σ → List α → List (σ × α)
  | _, [] => []
  | s, a :: as => (s, a) :: (step s a).elim [] fun s' => visited step s' as

namespace Run

variable {step : σ → α → Option σ} {guard : σ → α → Prop} {s s' : σ} {as : List α}

theorem visited_cons {a : α} (hstep : step s a = some s') (as : List α) :
    visited step s (a :: as) = (s, a) :: visited step s' as := by
  rw [visited, hstep]
  rfl

/-- The actions of a run are those of the states it visited. -/
theorem visited_map_snd (h : Run step guard s as s') : (visited step s as).map Prod.snd = as := by
  induction h with
  | nil s => rfl
  | cons _ hstep _ ih => rw [visited_cons hstep, List.map_cons, ih]

theorem visited_append (h : Run step guard s as s') (as' : List α) :
    visited step s (as ++ as') = visited step s as ++ visited step s' as' := by
  induction h with
  | nil s => rfl
  | cons _ hstep _ ih => rw [List.cons_append, visited_cons hstep, visited_cons hstep, ih, List.cons_append]

/-- What every guarded step keeps true of the history and of the state holds at the end of a run. -/
theorem history {I : List (σ × α) → σ → Prop}
    (hstep : ∀ h s a s', I h s → guard s a → step s a = some s' → I (h ++ [(s, a)]) s')
    (hrun : Run step guard s as s') (hs : I [] s) : I (visited step s as) s' := by
  suffices hgeneral : ∀ h, I h s → I (h ++ visited step s as) s' from hgeneral [] hs
  clear hs
  induction hrun with
  | nil s =>
    intro h hI
    rw [visited, List.append_nil]
    exact hI
  | cons hguard hs' _ ih =>
    intro h hI
    rw [visited_cons hs', List.append_cons]
    exact ih _ (hstep h _ _ _ hI hguard hs')

end Run

/-- An evaluation is a run. -/
theorem run_of_execute {step : σ → α → Option σ} {test : σ → α → Bool} {guard : σ → α → Prop}
    (htest : ∀ s a, test s a = true → guard s a) {s s' : σ} {as : List α}
    (h : execute step test s as = some s') : Run step guard s as s' := by
  induction as generalizing s with
  | nil =>
    cases h
    exact .nil _
  | cons a as ih =>
    unfold execute at h
    split_ifs at h with ht
    rw [Option.bind_eq_some_iff] at h
    obtain ⟨t, hstep, hrest⟩ := h
    exact .cons (htest s a ht) hstep (ih hrest)

theorem execute_append (step : σ → α → Option σ) (test : σ → α → Bool) (s : σ) (as as' : List α) :
    execute step test s (as ++ as') =
      (execute step test s as).bind fun s' => execute step test s' as' := by
  induction as generalizing s with
  | nil => rfl
  | cons a as ih =>
    rw [List.cons_append, execute, execute]
    split_ifs
    · rw [Option.bind_assoc]
      congr 1
      funext s'
      exact ih s'
    · rfl

theorem step_of_execute {step : σ → α → Option σ} {test : σ → α → Bool} {s s' : σ} {a : α}
    (h : execute step test s [a] = some s') : test s a = true ∧ step s a = some s' := by
  unfold execute at h
  split_ifs at h with ht
  refine ⟨ht, ?_⟩
  obtain ⟨t, hstep, hnil⟩ := Option.bind_eq_some_iff.1 h
  obtain rfl : t = s' := Option.some_inj.1 hnil
  exact hstep

/-! ### Histories -/

/-- Every entry satisfies `P` together with the entries before it. -/
def Justified (P : List α → α → Prop) (l : List α) : Prop :=
  ∀ before a after, l = before ++ a :: after → P before a

/-- Every entry behind `before` passes the test together with the entries before it. -/
def testAll (test : List α → α → Bool) : List α → List α → Bool
  | _, [] => true
  | before, a :: l => test before a && testAll test (before ++ [a]) l

namespace Justified

variable {P : List α → α → Prop} {l l' : List α} {a : α}

theorem nil : Justified P [] := by
  intro before a after h
  simp at h

/-- An earlier history. -/
theorem of_append (h : Justified P (l ++ l')) : Justified P l := by
  rintro before b after rfl
  exact h before b (after ++ l') (List.append_assoc _ _ _)

theorem last (h : Justified P (l ++ [a])) : P l a := h l a [] rfl

/-- A history grows by one entry. -/
theorem snoc (h : Justified P l) (ha : P l a) : Justified P (l ++ [a]) := by
  intro before b after heq
  rcases List.eq_nil_or_concat after with rfl | ⟨after, c, rfl⟩
  · obtain ⟨rfl, hb⟩ := List.append_inj' heq rfl
    obtain rfl := List.singleton_inj.1 hb
    exact ha
  · rw [List.concat_eq_append, ← List.cons_append, ← List.append_assoc] at heq
    exact h before b after (List.append_inj' heq rfl).1

/-- A history grows by entries that need no justification. -/
theorem append (h : Justified P l) (hl : ∀ a ∈ l', ∀ before, P before a) : Justified P (l ++ l') := by
  induction l' generalizing l with
  | nil =>
    rw [List.append_nil]
    exact h
  | cons a l' ih =>
    rw [List.append_cons]
    exact ih (h.snoc (hl a List.mem_cons_self l)) fun b hb => hl b (List.mem_cons_of_mem a hb)

/-- An evaluation justifies a history. -/
theorem of_testAll {test : List α → α → Bool} (htest : ∀ before a, test before a = true → P before a)
    (h : testAll test [] l = true) : Justified P l := by
  suffices hgeneral : ∀ before l, Justified P before → testAll test before l = true →
      Justified P (before ++ l) from hgeneral [] l .nil h
  clear h
  intro before l hbefore h
  induction l generalizing before with
  | nil =>
    rw [List.append_nil]
    exact hbefore
  | cons a l ih =>
    rw [testAll, Bool.and_eq_true] at h
    rw [List.append_cons]
    exact ih _ (hbefore.snoc (htest before a h.1)) h.2

end Justified

/-! ### What a relation leads to -/

/-- In at most `n` rounds, `R` reaches the goal. -/
def Leads (R : σ → σ → Prop) (goal : σ → Prop) : Nat → σ → Prop
  | 0, s => goal s
  | n + 1, s => goal s ∨ (∃ s', R s s') ∧ ∀ s', R s s' → Leads R goal n s'

section Leads

variable {R : σ → σ → Prop} {goal : σ → Prop}

theorem leads_of_goal {s : σ} (h : goal s) (n : Nat) : Leads R goal n s := by
  cases n with
  | zero => exact h
  | succ n => exact .inl h

/-- Before the goal there is a round, and it leads on. -/
theorem Leads.exists_round {n : Nat} {s : σ} (h : Leads R goal n s) (hs : ¬ goal s) :
    ∃ k s', n = k + 1 ∧ R s s' ∧ Leads R goal k s' := by
  cases n with
  | zero => exact absurd h hs
  | succ n =>
    obtain ⟨⟨s', hR⟩, hall⟩ := h.resolve_left hs
    exact ⟨n, s', rfl, hR, hall s' hR⟩

/-- Every round reaches the goal, or keeps the invariant and takes something from the variant. -/
theorem leads_of_variant {I : σ → Prop} (V : σ → Nat)
    (hround : ∀ s, I s → (∃ s', R s s') ∧ ∀ s', R s s' → goal s' ∨ I s' ∧ V s' < V s) {n : Nat} {s : σ}
    (hs : I s) (hn : V s < n) : Leads R goal n s := by
  induction n generalizing s with
  | zero => exact absurd hn (Nat.not_lt_zero _)
  | succ n ih =>
    obtain ⟨hex, hall⟩ := hround s hs
    refine .inr ⟨hex, fun s' hR => ?_⟩
    rcases hall s' hR with hgoal | ⟨hs', hlt⟩
    · exact leads_of_goal hgoal n
    · exact ih hs' (hlt.trans_le (Nat.lt_succ_iff.1 hn))

/-- What some round always keeps can go on for ever. -/
theorem exists_endless {I : σ → Prop} (hround : ∀ s, I s → ∃ s', R s s' ∧ I s') {s : σ} (hs : I s) :
    ∃ f : Nat → σ, f 0 = s ∧ ∀ n, R (f n) (f (n + 1)) ∧ I (f n) := by
  choose next hnext using hround
  let f : Nat → { s // I s } := fun n =>
    Nat.rec ⟨s, hs⟩ (fun _ t => ⟨next t.1 t.2, (hnext t.1 t.2).2⟩) n
  exact ⟨fun n => (f n).1, rfl, fun n => ⟨(hnext (f n).1 (f n).2).1, (f n).2⟩⟩

end Leads

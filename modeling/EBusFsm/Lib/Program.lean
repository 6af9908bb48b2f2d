import Mathlib.Tactic

/-!
# Programs with a state and an early stop

A program over a state `σ` returns a value or stops with an `ε`; the state reached so far survives
the stop, as the members of an object survive an exception. `exec` runs a program from a state, and
`wp x Q E s` says that the run of `x` from `s` ends in `Q` when it returns and in `E` when it stops.

`wp_bind` and `wp_tryCatch` are the rules for sequencing and for handlers, `wp_mono` the rule of
consequence, `wp_forM` the rule for a loop over a list.

`Keeps I x` says that `x` keeps the invariant `I`, however it ends; it has a rule for each way to build a
program.
-/

/-- A program over the state `σ` that returns an `α` or stops with an `ε`. -/
abbrev Prog (ε σ α : Type) := ExceptT ε (StateM σ) α

namespace Prog

variable {ε σ α β : Type}

/-- Runs a program from a state. -/
def exec (x : Prog ε σ α) (s : σ) : Except ε α × σ := StateT.run (ExceptT.run x) s

/-- The run of `x` from `s` satisfies `Q` if it returns and `E` if it stops. -/
def wp (x : Prog ε σ α) (Q : α → σ → Prop) (E : ε → σ → Prop) (s : σ) : Prop :=
  match exec x s with
  | (.ok a, s') => Q a s'
  | (.error e, s') => E e s'

/-! ### Running -/

@[simp] theorem exec_pure (a : α) (s : σ) : exec (pure a : Prog ε σ α) s = (.ok a, s) := rfl

@[simp] theorem exec_throw (e : ε) (s : σ) : exec (throw e : Prog ε σ α) s = (.error e, s) := rfl

@[simp] theorem exec_get (s : σ) : exec (get : Prog ε σ σ) s = (.ok s, s) := rfl

@[simp] theorem exec_set (s' s : σ) : exec (set s' : Prog ε σ PUnit) s = (.ok ⟨⟩, s') := rfl

@[simp] theorem exec_modify (f : σ → σ) (s : σ) :
    exec (modify f : Prog ε σ PUnit) s = (.ok ⟨⟩, f s) := rfl

theorem exec_bind (x : Prog ε σ α) (f : α → Prog ε σ β) (s : σ) :
    exec (x >>= f) s =
      match exec x s with
      | (.ok a, s') => exec (f a) s'
      | (.error e, s') => (.error e, s') := by
  unfold exec
  rw [ExceptT.run_bind, StateT.run_bind]
  rcases StateT.run (ExceptT.run x) s with ⟨e | a, s'⟩ <;> rfl

theorem exec_bind_ok {x : Prog ε σ α} {f : α → Prog ε σ β} {s s' : σ} {a : α}
    (h : exec x s = (.ok a, s')) : exec (x >>= f) s = exec (f a) s' := by
  rw [exec_bind, h]

theorem exec_bind_error {x : Prog ε σ α} {f : α → Prog ε σ β} {s s' : σ} {e : ε}
    (h : exec x s = (.error e, s')) : exec (x >>= f) s = (.error e, s') := by
  rw [exec_bind, h]

theorem exec_tryCatch (x : Prog ε σ α) (f : ε → Prog ε σ α) (s : σ) :
    exec (tryCatch x f) s =
      match exec x s with
      | (.ok a, s') => (.ok a, s')
      | (.error e, s') => exec (f e) s' := by
  show StateT.run (ExceptT.run (ExceptT.tryCatch x f)) s = _
  unfold exec ExceptT.tryCatch
  rw [ExceptT.run_mk, StateT.run_bind]
  change _ = match StateT.run x s with
    | (Except.ok a, s') => (Except.ok a, s')
    | (Except.error e, s') => StateT.run (ExceptT.run (f e)) s'
  rcases StateT.run x s with ⟨e | a, s'⟩ <;> rfl

/-- A run whose result is known. -/
theorem exec_eq_of_fst {x : Prog ε σ α} {s : σ} {r : Except ε α} (h : (exec x s).1 = r) :
    exec x s = (r, (exec x s).2) := Prod.ext h rfl

/-! ### Weakest preconditions -/

theorem wp_def (x : Prog ε σ α) (Q : α → σ → Prop) (E : ε → σ → Prop) (s : σ) :
    wp x Q E s ↔
      (∀ a s', exec x s = (.ok a, s') → Q a s') ∧
        (∀ e s', exec x s = (.error e, s') → E e s') := by
  unfold wp
  rcases exec x s with ⟨e | a, s'⟩ <;> simp

theorem wp_ok {x : Prog ε σ α} {Q : α → σ → Prop} {E : ε → σ → Prop} {s s' : σ} {a : α}
    (h : wp x Q E s) (hx : exec x s = (.ok a, s')) : Q a s' :=
  ((wp_def x Q E s).1 h).1 a s' hx

theorem wp_error {x : Prog ε σ α} {Q : α → σ → Prop} {E : ε → σ → Prop} {s s' : σ} {e : ε}
    (h : wp x Q E s) (hx : exec x s = (.error e, s')) : E e s' :=
  ((wp_def x Q E s).1 h).2 e s' hx

/-- A run that cannot stop returns. -/
theorem exists_of_wp {x : Prog ε σ α} {Q : α → σ → Prop} {s : σ} (h : wp x Q (fun _ _ => False) s) :
    ∃ a s', exec x s = (.ok a, s') ∧ Q a s' := by
  rcases hx : exec x s with ⟨e | a, s'⟩
  · exact absurd (wp_error h hx) id
  · exact ⟨a, s', rfl, wp_ok h hx⟩

@[simp] theorem wp_pure (a : α) (Q : α → σ → Prop) (E : ε → σ → Prop) (s : σ) :
    wp (pure a : Prog ε σ α) Q E s ↔ Q a s := Iff.rfl

@[simp] theorem wp_throw (e : ε) (Q : α → σ → Prop) (E : ε → σ → Prop) (s : σ) :
    wp (throw e : Prog ε σ α) Q E s ↔ E e s := Iff.rfl

@[simp] theorem wp_get (Q : σ → σ → Prop) (E : ε → σ → Prop) (s : σ) :
    wp (get : Prog ε σ σ) Q E s ↔ Q s s := Iff.rfl

@[simp] theorem wp_set (s' : σ) (Q : PUnit → σ → Prop) (E : ε → σ → Prop) (s : σ) :
    wp (set s' : Prog ε σ PUnit) Q E s ↔ Q ⟨⟩ s' := Iff.rfl

@[simp] theorem wp_modify (f : σ → σ) (Q : PUnit → σ → Prop) (E : ε → σ → Prop) (s : σ) :
    wp (modify f : Prog ε σ PUnit) Q E s ↔ Q ⟨⟩ (f s) := Iff.rfl

@[simp] theorem wp_bind (x : Prog ε σ α) (f : α → Prog ε σ β) (Q : β → σ → Prop)
    (E : ε → σ → Prop) (s : σ) :
    wp (x >>= f) Q E s ↔ wp x (fun a s' => wp (f a) Q E s') E s := by
  unfold wp
  rw [exec_bind]
  rcases exec x s with ⟨e | a, s'⟩ <;> rfl

theorem wp_tryCatch (x : Prog ε σ α) (f : ε → Prog ε σ α) (Q : α → σ → Prop)
    (E : ε → σ → Prop) (s : σ) :
    wp (tryCatch x f) Q E s ↔ wp x Q (fun e s' => wp (f e) Q E s') s := by
  unfold wp
  rw [exec_tryCatch]
  rcases exec x s with ⟨e | a, s'⟩ <;> rfl

theorem wp_ite {p : Prop} [Decidable p] (x y : Prog ε σ α) (Q : α → σ → Prop)
    (E : ε → σ → Prop) (s : σ) :
    wp (if p then x else y) Q E s ↔ (p → wp x Q E s) ∧ (¬ p → wp y Q E s) := by
  by_cases h : p <;> simp [h]

/-- The rule of consequence. -/
theorem wp_mono {x : Prog ε σ α} {Q Q' : α → σ → Prop} {E E' : ε → σ → Prop} {s : σ}
    (h : wp x Q E s) (hQ : ∀ a s', Q a s' → Q' a s') (hE : ∀ e s', E e s' → E' e s') :
    wp x Q' E' s := by
  rw [wp_def] at h ⊢
  exact ⟨fun a s' hx => hQ a s' (h.1 a s' hx), fun e s' hx => hE e s' (h.2 e s' hx)⟩

/-- The rule of conjunction. -/
theorem wp_and {x : Prog ε σ α} {Q Q' : α → σ → Prop} {E E' : ε → σ → Prop} {s : σ}
    (h : wp x Q E s) (h' : wp x Q' E' s) :
    wp x (fun a s' => Q a s' ∧ Q' a s') (fun e s' => E e s' ∧ E' e s') s := by
  rw [wp_def] at h h' ⊢
  exact ⟨fun a s' hx => ⟨h.1 a s' hx, h'.1 a s' hx⟩, fun e s' hx => ⟨h.2 e s' hx, h'.2 e s' hx⟩⟩

/-- The rule for a loop over a list; the invariant `I done rest` speaks of the state between two
rounds. -/
theorem wp_forM (l : List α) (f : α → Prog ε σ PUnit) (I : List α → σ → Prop) (E : ε → σ → Prop)
    (step : ∀ a rest s, I (a :: rest) s → wp (f a) (fun _ s' => I rest s') E s) (s : σ)
    (h : I l s) : wp (l.forM f) (fun _ s' => I [] s') E s := by
  induction l generalizing s with
  | nil => exact h
  | cons a l ih =>
    show wp (f a >>= fun _ => l.forM f) _ E s
    rw [wp_bind]
    exact wp_mono (step a l s h) (fun _ s' hs' => ih s' hs') (fun _ _ he => he)

/-! ### Invariants -/

/-- However the program ends, what holds of the state before it holds behind it. -/
def Keeps (I : σ → Prop) (x : Prog ε σ α) : Prop := ∀ s, I s → wp x (fun _ => I) (fun _ => I) s

namespace Keeps

variable {I : σ → Prop} {x y : Prog ε σ α}

theorem exec (h : Keeps I x) {s : σ} (hs : I s) : I (Prog.exec x s).2 := by
  have hwp := h s hs
  rcases hx : Prog.exec x s with ⟨e | a, s'⟩
  · exact wp_error hwp hx
  · exact wp_ok hwp hx

theorem pure (a : α) : Keeps I (Pure.pure a : Prog ε σ α) := fun _ hs => hs

theorem throw (e : ε) : Keeps I (MonadExcept.throw e : Prog ε σ α) := fun _ hs => hs

theorem get : Keeps I (MonadState.get : Prog ε σ σ) := fun _ hs => hs

theorem modify {f : σ → σ} (h : ∀ s, I s → I (f s)) : Keeps I (modify f : Prog ε σ PUnit) :=
  fun s hs => h s hs

theorem bind {f : α → Prog ε σ β} (hx : Keeps I x) (hf : ∀ a, Keeps I (f a)) : Keeps I (x >>= f) := by
  intro s hs
  rw [wp_bind]
  exact wp_mono (hx s hs) (fun a s' hs' => hf a s' hs') fun _ _ hs' => hs'

theorem ite {p : Prop} [Decidable p] (hx : Keeps I x) (hy : Keeps I y) : Keeps I (if p then x else y) := by
  split_ifs
  · exact hx
  · exact hy

theorem tryCatch {f : ε → Prog ε σ α} (hx : Keeps I x) (hf : ∀ e, Keeps I (f e)) :
    Keeps I (MonadExcept.tryCatch x f) := by
  intro s hs
  rw [wp_tryCatch]
  exact wp_mono (hx s hs) (fun _ _ hs' => hs') fun e s' hs' => hf e s' hs'

theorem forM (l : List α) {f : α → Prog ε σ PUnit} (hf : ∀ a, Keeps I (f a)) : Keeps I (l.forM f) :=
  fun s hs => wp_forM l f (fun _ => I) (fun _ => I) (fun a _ s hs => hf a s hs) s hs

end Keeps

end Prog

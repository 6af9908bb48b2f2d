import EBusFsm.Lib.Program

/-!
# A program among other threads

A thread runs a program over the state `σ` while other threads act: an action is a partial step on the state of
the program and on a state `ρ` that only the others use. `Code` is a program cut into parts. Between two parts,
before the first and behind the last of them others may act (`Interleaved`).

Every action is of some kind. `Movable x C` says that an action may come before or behind the program `x` alike
unless its kind is in `C`, which may depend on how the program ends. `Reduces c C` says that a code is atomic:
it ends as if some actions, of kinds in `C`, had come first, the program had run alone and all other actions had
come behind it, the actions of each kind in their order. It asks that actions of different kinds commute, and that on
every way through the code a kind is in the `C` of at most one part (`Reduces.part`, `Reduces.bind`,
`Reduces.tryCatch`).
-/

namespace Prog

/-- A program cut into parts. -/
inductive Code (ε σ : Type) : Type → Type 1
  | part {α : Type} (x : Prog ε σ α) : Code ε σ α
  | bind {α β : Type} (c : Code ε σ α) (d : α → Code ε σ β) : Code ε σ β
  | tryCatch {α : Type} (c : Code ε σ α) (d : ε → Code ε σ α) : Code ε σ α

variable {ε σ ρ κ γ α β : Type}

def Code.prog {α : Type} : Code ε σ α → Prog ε σ α
  | .part x => x
  | .bind c d => c.prog >>= fun a => (d a).prog
  | .tryCatch c d => MonadExcept.tryCatch c.prog fun e => (d e).prog

/-! ### Actions of other threads -/

section Acting

variable (act : κ → σ × ρ → Option (σ × ρ))

/-- Several actions, one after the other. -/
def acts : List κ → σ × ρ → Option (σ × ρ)
  | [], s => some s
  | k :: ks, s => (act k s).bind (acts ks)

/-- A run of a code from `s` to `t` with the result `res`, and with the actions of other threads meanwhile. -/
inductive Interleaved : {α : Type} → Code ε σ α → σ × ρ → List κ → Except ε α → σ × ρ → Prop
  | part {α : Type} {x : Prog ε σ α} {s t : σ × ρ} {s' : σ} {r' : ρ} {ks ls : List κ}
      (hbefore : acts act ks s = some (s', r')) (hbehind : acts act ls ((exec x s').2, r') = some t) :
      Interleaved (.part x) s (ks ++ ls) (exec x s').1 t
  | bind {α β : Type} {c : Code ε σ α} {d : α → Code ε σ β} {s s' t : σ × ρ} {ks ls : List κ} {a : α}
      {res : Except ε β} (hc : Interleaved c s ks (.ok a) s') (hd : Interleaved (d a) s' ls res t) :
      Interleaved (.bind c d) s (ks ++ ls) res t
  | bindError {α β : Type} {c : Code ε σ α} {d : α → Code ε σ β} {s t : σ × ρ} {ks : List κ} {e : ε}
      (hc : Interleaved c s ks (.error e) t) : Interleaved (.bind c d) s ks (.error e) t
  | tryOk {α : Type} {c : Code ε σ α} {d : ε → Code ε σ α} {s t : σ × ρ} {ks : List κ} {a : α}
      (hc : Interleaved c s ks (.ok a) t) : Interleaved (.tryCatch c d) s ks (.ok a) t
  | tryCatch {α : Type} {c : Code ε σ α} {d : ε → Code ε σ α} {s s' t : σ × ρ} {ks ls : List κ} {e : ε}
      {res : Except ε α} (hc : Interleaved c s ks (.error e) s') (hd : Interleaved (d e) s' ls res t) :
      Interleaved (.tryCatch c d) s (ks ++ ls) res t

variable {act} in
theorem Interleaved.of_part {x : Prog ε σ α} {s t : σ × ρ} {s' : σ} {r' : ρ} {ks ls : List κ} {res : Except ε α}
    (hbefore : acts act ks s = some (s', r')) (hres : (exec x s').1 = res)
    (hbehind : acts act ls ((exec x s').2, r') = some t) : Interleaved act (.part x) s (ks ++ ls) res t := by
  subst hres
  exact .part hbefore hbehind

theorem acts_append (ks ls : List κ) (s : σ × ρ) :
    acts act (ks ++ ls) s = (acts act ks s).bind (acts act ls) := by
  induction ks generalizing s with
  | nil => rfl
  | cons k ks ih =>
    show (act k s).bind (acts act (ks ++ ls)) = ((act k s).bind (acts act ks)).bind (acts act ls)
    rw [Option.bind_assoc]
    exact congrArg _ (funext ih)

theorem acts_append_iff {ks ls : List κ} {s t : σ × ρ} :
    acts act (ks ++ ls) s = some t ↔ ∃ s', acts act ks s = some s' ∧ acts act ls s' = some t := by
  rw [acts_append, Option.bind_eq_some_iff]

/-! ### Actions that move -/

variable (kind : κ → γ)

/-- An action of a kind that is not in `C` and the program give the same in both orders. -/
structure Movable (x : Prog ε σ α) (C : Except ε α → γ → Prop) : Prop where
  later : ∀ {k : κ} {s s' : σ} {r r' : ρ}, act k (s, r) = some (s', r') → ¬ C (exec x s').1 (kind k) →
    (exec x s).1 = (exec x s').1 ∧ act k ((exec x s).2, r) = some ((exec x s').2, r')
  sooner : ∀ {k : κ} {s t' : σ} {r r' : ρ}, act k ((exec x s).2, r) = some (t', r') →
    ¬ C (exec x s).1 (kind k) → ∃ s', act k (s, r) = some (s', r') ∧ exec x s' = ((exec x s).1, t')

/-- Actions of different kinds commute. -/
def Commuting : Prop :=
  ∀ k l, kind k ≠ kind l → ∀ s t, (act k s).bind (act l) = some t → (act l s).bind (act k) = some t

section Moving

variable {act kind} {x : Prog ε σ α} {C : Except ε α → γ → Prop} {ks : List κ} {s : σ} {r r' : ρ}

theorem Movable.acts_later (h : Movable act kind x C) {s' : σ} (hacts : acts act ks (s, r) = some (s', r'))
    (hks : ∀ k ∈ ks, ¬ C (exec x s').1 (kind k)) :
    (exec x s).1 = (exec x s').1 ∧ acts act ks ((exec x s).2, r) = some ((exec x s').2, r') := by
  induction ks generalizing s r with
  | nil =>
    cases hacts
    exact ⟨rfl, rfl⟩
  | cons k ks ih =>
    obtain ⟨⟨s₁, r₁⟩, hk, hrest⟩ := Option.bind_eq_some_iff.1 hacts
    obtain ⟨hres, hacts'⟩ := ih hrest fun l hl => hks l (List.mem_cons_of_mem k hl)
    obtain ⟨hres', hk'⟩ := h.later hk (by
      rw [hres]
      exact hks k List.mem_cons_self)
    exact ⟨hres'.trans hres, Option.bind_eq_some_iff.2 ⟨_, hk', hacts'⟩⟩

theorem Movable.acts_sooner (h : Movable act kind x C) {t : σ}
    (hacts : acts act ks ((exec x s).2, r) = some (t, r')) (hks : ∀ k ∈ ks, ¬ C (exec x s).1 (kind k)) :
    ∃ s', acts act ks (s, r) = some (s', r') ∧ exec x s' = ((exec x s).1, t) := by
  induction ks generalizing s r with
  | nil =>
    cases hacts
    exact ⟨s, rfl, rfl⟩
  | cons k ks ih =>
    obtain ⟨⟨t₁, r₁⟩, hk, hrest⟩ := Option.bind_eq_some_iff.1 hacts
    obtain ⟨s₁, hk', hs₁⟩ := h.sooner hk (hks k List.mem_cons_self)
    have hres : (exec x s₁).1 = (exec x s).1 := by rw [hs₁]
    have ht : (exec x s₁).2 = t₁ := by rw [hs₁]
    rw [← ht] at hrest
    obtain ⟨s', hacts', hs'⟩ := ih hrest fun l hl => by
      rw [hres]
      exact hks l (List.mem_cons_of_mem k hl)
    exact ⟨s', Option.bind_eq_some_iff.2 ⟨_, hk', hacts'⟩, hs'.trans (by rw [hres])⟩

theorem Movable.mono (h : Movable act kind x C) {C' : Except ε α → γ → Prop}
    (hC : ∀ s g, C (exec x s).1 g → C' (exec x s).1 g) : Movable act kind x C' where
  later hk hC' := h.later hk fun hg => hC' (hC _ _ hg)
  sooner hk hC' := h.sooner hk fun hg => hC' (hC _ _ hg)

theorem Movable.bind {f : α → Prog ε σ β} {D : α → Except ε β → γ → Prop} {E : Except ε β → γ → Prop}
    (hx : Movable act kind x C) (hf : ∀ a, Movable act kind (f a) (D a))
    (hok : ∀ a s g, C (.ok a) g ∨ D a (exec (f a) s).1 g → E (exec (f a) s).1 g)
    (herror : ∀ e g, C (.error e) g → E (.error e) g) : Movable act kind (x >>= f) E := by
  constructor
  · intro k s s' r r' hk hE
    rcases hx' : exec x s' with ⟨e | a, w'⟩
    · rw [exec_bind_error hx'] at hE ⊢
      obtain ⟨hres, hlater⟩ := hx.later hk (by
        rw [hx']
        exact fun hC => hE (herror e _ hC))
      rw [hx'] at hres hlater
      rw [exec_bind_error (exec_eq_of_fst hres)]
      exact ⟨rfl, hlater⟩
    · rw [exec_bind_ok hx'] at hE ⊢
      obtain ⟨hres, hlater⟩ := hx.later hk (by
        rw [hx']
        exact fun hC => hE (hok a w' _ (.inl hC)))
      rw [hx'] at hres hlater
      rw [exec_bind_ok (exec_eq_of_fst hres)]
      exact (hf a).later hlater fun hD => hE (hok a w' _ (.inr hD))
  · intro k s t' r r' hk hE
    rcases hxs : exec x s with ⟨e | a, w⟩
    · rw [exec_bind_error hxs] at hk hE ⊢
      have hlast : act k ((exec x s).2, r) = some (t', r') := by
        rw [hxs]
        exact hk
      obtain ⟨s', hs', hx'⟩ := hx.sooner hlast (by
        rw [hxs]
        exact fun hC => hE (herror e _ hC))
      rw [hxs] at hx'
      exact ⟨s', hs', exec_bind_error hx'⟩
    · rw [exec_bind_ok hxs] at hk hE ⊢
      obtain ⟨w', hw', hf'⟩ := (hf a).sooner hk fun hD => hE (hok a w _ (.inr hD))
      have hfirst : act k ((exec x s).2, r) = some (w', r') := by
        rw [hxs]
        exact hw'
      obtain ⟨s', hs', hx'⟩ := hx.sooner hfirst (by
        rw [hxs]
        exact fun hC => hE (hok a w _ (.inl hC)))
      rw [hxs] at hx'
      exact ⟨s', hs', (exec_bind_ok hx').trans hf'⟩

theorem Movable.tryCatch {f : ε → Prog ε σ α} {D : ε → Except ε α → γ → Prop} {E : Except ε α → γ → Prop}
    (hx : Movable act kind x C) (hf : ∀ e, Movable act kind (f e) (D e))
    (hok : ∀ a g, C (.ok a) g → E (.ok a) g)
    (herror : ∀ e s g, C (.error e) g ∨ D e (exec (f e) s).1 g → E (exec (f e) s).1 g) :
    Movable act kind (MonadExcept.tryCatch x f) E := by
  constructor
  · intro k s s' r r' hk hE
    rw [exec_tryCatch] at hE ⊢
    rw [exec_tryCatch]
    rcases hx' : exec x s' with ⟨e | a, w'⟩
    · rw [hx'] at hE
      obtain ⟨hres, hlater⟩ := hx.later hk (by
        rw [hx']
        exact fun hC => hE (herror e w' _ (.inl hC)))
      rw [hx'] at hres hlater
      rw [exec_eq_of_fst hres]
      exact (hf e).later hlater fun hD => hE (herror e w' _ (.inr hD))
    · rw [hx'] at hE
      obtain ⟨hres, hlater⟩ := hx.later hk (by
        rw [hx']
        exact fun hC => hE (hok a _ hC))
      rw [hx'] at hres hlater
      rw [exec_eq_of_fst hres]
      exact ⟨rfl, hlater⟩
  · intro k s t' r r' hk hE
    rw [exec_tryCatch] at hk hE ⊢
    rcases hxs : exec x s with ⟨e | a, w⟩
    · rw [hxs] at hk hE
      obtain ⟨w', hw', hf'⟩ := (hf e).sooner hk fun hD => hE (herror e w _ (.inr hD))
      have hfirst : act k ((exec x s).2, r) = some (w', r') := by
        rw [hxs]
        exact hw'
      obtain ⟨s', hs', hx'⟩ := hx.sooner hfirst (by
        rw [hxs]
        exact fun hC => hE (herror e w _ (.inl hC)))
      rw [hxs] at hx'
      refine ⟨s', hs', ?_⟩
      rw [exec_tryCatch, hx']
      exact hf'
    · rw [hxs] at hk hE
      have hlast : act k ((exec x s).2, r) = some (t', r') := by
        rw [hxs]
        exact hk
      obtain ⟨s', hs', hx'⟩ := hx.sooner hlast (by
        rw [hxs]
        exact fun hC => hE (hok a _ hC))
      rw [hxs] at hx'
      refine ⟨s', hs', ?_⟩
      rw [exec_tryCatch, hx']

/-- One action moves behind others of other kinds. -/
theorem Commuting.behind (hcomm : Commuting act kind) {k : κ} {s t : σ × ρ} (hks : ∀ l ∈ ks, kind k ≠ kind l)
    (hacts : acts act (k :: ks) s = some t) : acts act (ks ++ [k]) s = some t := by
  induction ks generalizing s with
  | nil => exact hacts
  | cons l ks ih =>
    obtain ⟨s₁, hk, hrest⟩ := Option.bind_eq_some_iff.1 hacts
    obtain ⟨s₂, hl, hrest⟩ := Option.bind_eq_some_iff.1 hrest
    have hswap := hcomm k l (hks l List.mem_cons_self) s s₂ (Option.bind_eq_some_iff.2 ⟨s₁, hk, hl⟩)
    obtain ⟨s₃, hl', hk'⟩ := Option.bind_eq_some_iff.1 hswap
    refine Option.bind_eq_some_iff.2 ⟨s₃, hl', ih (fun l hl => hks l (List.mem_cons_of_mem _ hl)) ?_⟩
    exact Option.bind_eq_some_iff.2 ⟨s₂, hk', hrest⟩

/-- The actions of some kinds come first. -/
theorem Commuting.partition (hcomm : Commuting act kind) (P : γ → Prop)
    [DecidablePred P] {ks : List κ} {s t : σ × ρ} (hacts : acts act ks s = some t) :
    acts act (ks.filter (fun k => P (kind k)) ++ ks.filter (fun k => ¬ P (kind k))) s = some t := by
  induction ks generalizing s with
  | nil => exact hacts
  | cons k ks ih =>
    obtain ⟨s₁, hk, hrest⟩ := Option.bind_eq_some_iff.1 hacts
    by_cases hP : P (kind k)
    · rw [List.filter_cons_of_pos (by simpa using hP), List.filter_cons_of_neg (by simpa using hP)]
      exact Option.bind_eq_some_iff.2 ⟨s₁, hk, ih hrest⟩
    · rw [List.filter_cons_of_neg (by simpa using hP), List.filter_cons_of_pos (by simpa using hP),
        List.append_cons, acts_append_iff]
      obtain ⟨s₂, hfirst, hsecond⟩ := (acts_append_iff act).1 (ih hrest)
      refine ⟨s₂, hcomm.behind (fun l hl hkind => ?_) (Option.bind_eq_some_iff.2 ⟨s₁, hk, hfirst⟩), hsecond⟩
      rw [hkind] at hP
      exact hP (by simpa using (List.mem_filter.1 hl).2)

end Moving

/-! ### The order of the actions of one kind -/

section Order

variable [DecidableEq γ]

/-- The actions of each kind come in the same order. -/
def Ordered (ks ls : List κ) : Prop :=
  ∀ g, ks.filter (fun k => kind k = g) = ls.filter (fun k => kind k = g)

variable {kind}

theorem Ordered.refl (ks : List κ) : Ordered kind ks ks := fun _ => rfl

theorem Ordered.trans {ks ls ms : List κ} (h : Ordered kind ks ls) (h' : Ordered kind ls ms) :
    Ordered kind ks ms := fun g => (h g).trans (h' g)

theorem Ordered.append {ks ks' ls ls' : List κ} (h : Ordered kind ks ks') (h' : Ordered kind ls ls') :
    Ordered kind (ks ++ ls) (ks' ++ ls') := by
  intro g
  rw [List.filter_append, List.filter_append, h g, h' g]

theorem ordered_between {u₁ v₁ u₂ v₂ first behind ks ls : List κ} (h₁ : Ordered kind (u₁ ++ v₁) ks)
    (h : Ordered kind (first ++ behind) (v₁ ++ u₂)) (h₂ : Ordered kind (u₂ ++ v₂) ls) :
    Ordered kind ((u₁ ++ first) ++ (behind ++ v₂)) (ks ++ ls) := by
  have hmiddle := (Ordered.refl u₁).append (h.append (Ordered.refl v₂ : Ordered kind v₂ v₂))
  have hends := h₁.append h₂
  simp only [List.append_assoc] at hmiddle hends ⊢
  exact hmiddle.trans hends

theorem ordered_partition (P : γ → Prop) [DecidablePred P] (ks : List κ) :
    Ordered kind (ks.filter (fun k => P (kind k)) ++ ks.filter (fun k => ¬ P (kind k))) ks := by
  intro g
  rw [List.filter_append, List.filter_filter, List.filter_filter]
  by_cases hg : P g
  · have hsecond : ks.filter (fun k => decide (kind k = g) && decide (¬ P (kind k))) = [] :=
      List.filter_eq_nil_iff.2 fun k _ => by
        rintro hk
        obtain ⟨rfl, hP⟩ : kind k = g ∧ ¬ P (kind k) := by simpa using hk
        exact hP hg
    rw [hsecond, List.append_nil]
    refine List.filter_congr fun k _ => ?_
    by_cases hk : kind k = g
    · simp [hk, hg]
    · simp [hk]
  · have hfirst : ks.filter (fun k => decide (kind k = g) && decide (P (kind k))) = [] :=
      List.filter_eq_nil_iff.2 fun k _ => by
        rintro hk
        obtain ⟨rfl, hP⟩ : kind k = g ∧ P (kind k) := by simpa using hk
        exact hg hP
    rw [hfirst, List.nil_append]
    refine List.filter_congr fun k _ => ?_
    by_cases hk : kind k = g
    · simp [hk, hg]
    · simp [hk]

end Order

/-! ### Atomic codes -/

section Reduces

variable [DecidableEq γ]

/-- The actions between two programs that no kind stops at both: some come before the first, and the others behind
the second. -/
theorem Movable.sequence {act : κ → σ × ρ → Option (σ × ρ)} {kind : κ → γ} (hcomm : Commuting act kind)
    {x : Prog ε σ α} {y : Prog ε σ β} {C : Except ε α → γ → Prop} {D : Except ε β → γ → Prop}
    (hx : Movable act kind x C) (hy : Movable act kind y D) {s₁ s₂ : σ} {r₁ r₂ : ρ} {w t : σ × ρ}
    {v₁ u₂ v₂ : List κ} (hdisjoint : ∀ g, C (exec x s₁).1 g → ¬ D (exec y s₂).1 g)
    (hv : acts act v₁ ((exec x s₁).2, r₁) = some w) (hu : acts act u₂ w = some (s₂, r₂))
    (ht : acts act v₂ ((exec y s₂).2, r₂) = some t) :
    ∃ first behind s' r', Ordered kind (first ++ behind) (v₁ ++ u₂) ∧
      (∀ k ∈ first, D (exec y s₂).1 (kind k)) ∧ acts act first (s₁, r₁) = some (s', r') ∧
      (exec x s').1 = (exec x s₁).1 ∧ (exec y (exec x s').2).1 = (exec y s₂).1 ∧
      acts act (behind ++ v₂) ((exec y (exec x s').2).2, r') = some t := by
  classical
  have hbetween : acts act (v₁ ++ u₂) ((exec x s₁).2, r₁) = some (s₂, r₂) := (acts_append_iff act).2 ⟨w, hv, hu⟩
  obtain ⟨⟨m, r'⟩, hfirst, hbehind⟩ :=
    (acts_append_iff act).1 (hcomm.partition (fun g => D (exec y s₂).1 g) hbetween)
  have hkinds : ∀ k ∈ (v₁ ++ u₂).filter (fun k => D (exec y s₂).1 (kind k)), D (exec y s₂).1 (kind k) :=
    fun k hk => by simpa using (List.mem_filter.1 hk).2
  obtain ⟨s', hs', hx'⟩ := hx.acts_sooner hfirst fun k hk hC => hdisjoint _ hC (hkinds k hk)
  obtain ⟨hres, hlater⟩ := hy.acts_later hbehind fun k hk => by simpa using (List.mem_filter.1 hk).2
  refine ⟨_, _, s', r', ordered_partition _ _, hkinds, hs', ?_, ?_, ?_⟩
  · rw [hx']
  · rw [hx']
    exact hres
  · rw [hx']
    exact (acts_append_iff act).2 ⟨_, hlater, ht⟩

/-- A code that runs among other threads ends as if some actions, of kinds in `C`, had come first, it had run alone,
and the others had come behind it. -/
structure Reduces (c : Code ε σ α) (C : Except ε α → γ → Prop) : Prop where
  movable : Movable act kind c.prog C
  reduce : ∀ {s t : σ × ρ} {ks : List κ} {res : Except ε α}, Interleaved act c s ks res t →
    ∃ u v s' r', Ordered kind (u ++ v) ks ∧ (∀ k ∈ u, C res (kind k)) ∧ acts act u s = some (s', r') ∧
      (exec c.prog s').1 = res ∧ acts act v ((exec c.prog s').2, r') = some t

namespace Reduces

variable {act kind} {C : Except ε α → γ → Prop}

theorem mono {c : Code ε σ α} (h : Reduces act kind c C) {C' : Except ε α → γ → Prop}
    (hC : ∀ s g, C (exec c.prog s).1 g → C' (exec c.prog s).1 g) : Reduces act kind c C' where
  movable := h.movable.mono hC
  reduce hrun := by
    obtain ⟨u, v, s', r', horder, hu, hbefore, rfl, hbehind⟩ := h.reduce hrun
    exact ⟨u, v, s', r', horder, fun k hk => hC s' _ (hu k hk), hbefore, rfl, hbehind⟩

theorem part (hcomm : Commuting act kind) {x : Prog ε σ α} (hx : Movable act kind x C) :
    Reduces act kind (.part x) C where
  movable := hx
  reduce := by
    classical
    rintro s t _ _ (@⟨_, _, _, _, s', r', ks, ls, hbefore, hbehind⟩)
    obtain ⟨⟨s₁, r₁⟩, hfirst, hsecond⟩ :=
      (acts_append_iff act).1 (hcomm.partition (fun g => C (exec x s').1 g) hbefore)
    obtain ⟨hres, hlater⟩ := hx.acts_later hsecond fun k hk => by
      simpa using (List.mem_filter.1 hk).2
    refine ⟨_, _ ++ ls, s₁, r₁, ?_, fun k hk => ?_, hfirst, hres, (acts_append_iff act).2 ⟨_, hlater, hbehind⟩⟩
    · rw [← List.append_assoc]
      exact (ordered_partition _ ks).append (.refl ls)
    · simpa using (List.mem_filter.1 hk).2

/-- Two codes behind each other, no kind in the `C` of both. -/
theorem bind (hcomm : Commuting act kind) {c : Code ε σ α} {d : α → Code ε σ β} {D : α → Except ε β → γ → Prop}
    {E : Except ε β → γ → Prop} (hc : Reduces act kind c C) (hd : ∀ a, Reduces act kind (d a) (D a))
    (hdisjoint : ∀ a s g, C (.ok a) g → ¬ D a (exec (d a).prog s).1 g)
    (hok : ∀ a s g, C (.ok a) g ∨ D a (exec (d a).prog s).1 g → E (exec (d a).prog s).1 g)
    (herror : ∀ e g, C (.error e) g → E (.error e) g) : Reduces act kind (.bind c d) E where
  movable := hc.movable.bind (fun a => (hd a).movable) hok herror
  reduce := by
    intro s t ks res hrun
    cases hrun with
    | bindError hrun =>
      obtain ⟨u, v, s', r', horder, hu, hbefore, hres, hbehind⟩ := hc.reduce hrun
      have hexec : exec (Code.bind c d).prog s' = (.error _, (exec c.prog s').2) :=
        exec_bind_error (exec_eq_of_fst hres)
      refine ⟨u, v, s', r', horder, fun k hk => herror _ _ (hu k hk), hbefore, ?_, ?_⟩
      · rw [hexec]
      · rw [hexec]
        exact hbehind
    | @bind _ _ _ _ _ _ _ ks₁ ks₂ a _ hrun₁ hrun₂ =>
      obtain ⟨u₁, v₁, s₁, r₁, horder₁, hu₁, hbefore₁, hres₁, hbehind₁⟩ := hc.reduce hrun₁
      obtain ⟨u₂, v₂, s₂, r₂, horder₂, -, hbefore₂, rfl, hbehind₂⟩ := (hd a).reduce hrun₂
      obtain ⟨first, behind, s', r', horder, hfirst, hacts, hres, hres', hbehind⟩ :=
        hc.movable.sequence hcomm (hd a).movable (fun g hC => hdisjoint a s₂ g (by rwa [hres₁] at hC))
          hbehind₁ hbefore₂ hbehind₂
      have hexec : exec (Code.bind c d).prog s' = exec (d a).prog (exec c.prog s').2 :=
        exec_bind_ok (exec_eq_of_fst (hres.trans hres₁))
      refine ⟨u₁ ++ first, behind ++ v₂, s', r', ordered_between horder₁ horder horder₂, ?_,
        (acts_append_iff act).2 ⟨_, hbefore₁, hacts⟩, ?_, ?_⟩
      · intro k hk
        exact hok a s₂ _ ((List.mem_append.1 hk).imp (hu₁ k) (hfirst k))
      · rw [hexec, hres']
      · rw [hexec]
        exact hbehind

/-- A code and its handlers, no kind in the `C` of both. -/
theorem tryCatch (hcomm : Commuting act kind) {c : Code ε σ α} {d : ε → Code ε σ α}
    {D : ε → Except ε α → γ → Prop} {E : Except ε α → γ → Prop} (hc : Reduces act kind c C)
    (hd : ∀ e, Reduces act kind (d e) (D e))
    (hdisjoint : ∀ e s g, C (.error e) g → ¬ D e (exec (d e).prog s).1 g)
    (hok : ∀ a g, C (.ok a) g → E (.ok a) g)
    (herror : ∀ e s g, C (.error e) g ∨ D e (exec (d e).prog s).1 g → E (exec (d e).prog s).1 g) :
    Reduces act kind (.tryCatch c d) E where
  movable := hc.movable.tryCatch (fun e => (hd e).movable) hok herror
  reduce := by
    intro s t ks res hrun
    cases hrun with
    | @tryOk _ _ _ _ _ _ a hrun =>
      obtain ⟨u, v, s', r', horder, hu, hbefore, hres, hbehind⟩ := hc.reduce hrun
      have hexec : exec (Code.tryCatch c d).prog s' = (.ok a, (exec c.prog s').2) := by
        rw [Code.prog, exec_tryCatch, exec_eq_of_fst hres]
      refine ⟨u, v, s', r', horder, fun k hk => hok _ _ (hu k hk), hbefore, ?_, ?_⟩
      · rw [hexec]
      · rw [hexec]
        exact hbehind
    | @tryCatch _ _ _ _ _ _ _ _ e _ hrun₁ hrun₂ =>
      obtain ⟨u₁, v₁, s₁, r₁, horder₁, hu₁, hbefore₁, hres₁, hbehind₁⟩ := hc.reduce hrun₁
      obtain ⟨u₂, v₂, s₂, r₂, horder₂, -, hbefore₂, rfl, hbehind₂⟩ := (hd e).reduce hrun₂
      obtain ⟨first, behind, s', r', horder, hfirst, hacts, hres, hres', hbehind⟩ :=
        hc.movable.sequence hcomm (hd e).movable (fun g hC => hdisjoint e s₂ g (by rwa [hres₁] at hC))
          hbehind₁ hbefore₂ hbehind₂
      have hexec : exec (Code.tryCatch c d).prog s' = exec (d e).prog (exec c.prog s').2 := by
        rw [Code.prog, exec_tryCatch, exec_eq_of_fst (hres.trans hres₁)]
      refine ⟨u₁ ++ first, behind ++ v₂, s', r', ordered_between horder₁ horder horder₂, ?_,
        (acts_append_iff act).2 ⟨_, hbefore₁, hacts⟩, ?_, ?_⟩
      · intro k hk
        exact herror e s₂ _ ((List.mem_append.1 hk).imp (hu₁ k) (hfirst k))
      · rw [hexec, hres']
      · rw [hexec]
        exact hbehind

end Reduces

end Reduces

end Acting

end Prog

import Mathlib.Tactic

/-!
# Fallible functions

A fallible function returns an `Except`. `Ensures x P` says that what `x` returns satisfies `P`, and leaves
open whether it returns; the rules follow the forms of a `do` block. `foldlM_returns` is the rule for a
sequence of calls that all return.
-/

variable {ε α β : Type}

/-- What `x` returns satisfies `P`. -/
def Ensures (x : Except ε α) (P : α → Prop) : Prop := ∀ a, x = .ok a → P a

namespace Ensures

variable {x y : Except ε α} {P Q : α → Prop}

theorem pure {a : α} (h : P a) : Ensures (Pure.pure a : Except ε α) P := by
  intro b hb
  cases hb
  exact h

theorem bind {f : α → Except ε β} {R : β → Prop} (h : ∀ a, x = .ok a → Ensures (f a) R) :
    Ensures (x >>= f) R := by
  intro b hb
  cases x with
  | error e => exact nomatch hb
  | ok a => exact h a rfl b hb

theorem ite {c : Prop} [Decidable c] (hx : c → Ensures x P) (hy : ¬ c → Ensures y P) :
    Ensures (if c then x else y) P := by
  split_ifs with h
  · exact hx h
  · exact hy h

end Ensures

/-- Calls that return and keep `P`, one after the other. -/
theorem foldlM_returns {f : β → α → Except ε β} {P : β → Prop}
    (h : ∀ b a, P b → ∃ b', f b a = .ok b' ∧ P b') (l : List α) {b : β} (hb : P b) :
    ∃ b', l.foldlM f b = .ok b' ∧ P b' := by
  induction l generalizing b with
  | nil => exact ⟨b, rfl, hb⟩
  | cons a l ih =>
    obtain ⟨b₁, hstep, hb₁⟩ := h b a hb
    obtain ⟨b', hrest, hb'⟩ := ih hb₁
    refine ⟨b', ?_, hb'⟩
    rw [List.foldlM_cons, hstep]
    exact hrest

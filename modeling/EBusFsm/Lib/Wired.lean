import Mathlib.Data.Finset.Lattice.Fold
import Mathlib.Tactic

/-!
# Arbitration on a wired bus

Participants that write at once read the least of what they write, in each of two components (`level`).
Those who read their own first component stay (`survivors`), and if the values differ, exactly one of the
participants that stay reads its own value when they write again (`existsUnique_winner`).

`fold_eq_level` reads the level off any operation that takes the least components on the values that
participants write.
-/

namespace Wired

variable {ι β γ : Type} [LinearOrder β] {S : Finset ι} {f : ι → β × γ}

/-- The participants whose first component is the least. -/
def survivors (S : Finset ι) (f : ι → β × γ) : Finset ι := S.filter fun i => ∀ j ∈ S, (f i).1 ≤ (f j).1

theorem survivors_subset : survivors S f ⊆ S := Finset.filter_subset _ _

/-- The participants that stay share the first component. -/
theorem fst_eq_of_mem_survivors {i j : ι} (hi : i ∈ survivors S f) (hj : j ∈ survivors S f) :
    (f i).1 = (f j).1 := by
  obtain ⟨hiS, hileast⟩ := Finset.mem_filter.1 hi
  obtain ⟨hjS, hjleast⟩ := Finset.mem_filter.1 hj
  exact le_antisymm (hileast j hjS) (hjleast i hiS)

variable [LinearOrder γ]

/-- What is read when all participants write. -/
def level (S : Finset ι) (hne : S.Nonempty) (f : ι → β × γ) : β × γ := S.inf' hne f

theorem level_fst (hne : S.Nonempty) : (level S hne f).1 = S.inf' hne fun i => (f i).1 :=
  Finset.apply_inf'_eq_inf'_comp hne Prod.fst fun _ _ => rfl

theorem level_snd (hne : S.Nonempty) : (level S hne f).2 = S.inf' hne fun i => (f i).2 :=
  Finset.apply_inf'_eq_inf'_comp hne Prod.snd fun _ _ => rfl

/-- A participant stays exactly if it reads its own first component. -/
theorem mem_survivors_iff (hne : S.Nonempty) {i : ι} (hi : i ∈ S) :
    i ∈ survivors S f ↔ (f i).1 = (level S hne f).1 := by
  rw [level_fst, survivors, Finset.mem_filter, and_iff_right hi]
  constructor
  · intro hleast
    apply le_antisymm
    · exact Finset.le_inf' hne _ hleast
    · exact Finset.inf'_le (fun i => (f i).1) hi
  · intro heq j hj
    rw [heq]
    exact Finset.inf'_le (fun i => (f i).1) hj

theorem survivors_nonempty (hne : S.Nonempty) : (survivors S f).Nonempty := by
  obtain ⟨i, hi, hleast⟩ := Finset.exists_mem_eq_inf' hne fun i => (f i).1
  refine ⟨i, (mem_survivors_iff hne hi).2 ?_⟩
  rw [level_fst, hleast]

/-- Exactly one of the participants that stay reads its own value when these write again. -/
theorem existsUnique_winner (hne : S.Nonempty) (hf : Set.InjOn f S) :
    ∃! i, i ∈ survivors S f ∧ f i = level (survivors S f) (survivors_nonempty hne) f := by
  have hne' : (survivors S f).Nonempty := survivors_nonempty hne
  obtain ⟨i, hi, hleast⟩ := Finset.exists_mem_eq_inf' hne' fun i => (f i).2
  refine ⟨i, ⟨hi, Prod.ext ?_ ?_⟩, fun j ⟨hj, heq⟩ => ?_⟩
  · obtain ⟨k, hk, hfst⟩ := Finset.exists_mem_eq_inf' hne' fun i => (f i).1
    rw [level_fst, hfst]
    exact fst_eq_of_mem_survivors hi hk
  · rw [level_snd, hleast]
  · apply hf (survivors_subset hj) (survivors_subset hi)
    apply Prod.ext
    · exact fst_eq_of_mem_survivors hj hi
    · rw [heq, level_snd, hleast]

/-- The fold of an operation that takes the least components. -/
theorem fold_eq_level {α : Type} (op : α → α → α) [Std.Commutative op] [Std.Associative op] {b : α}
    {x : ι → α} (P : α → Prop) (g : α → β × γ) (hclosed : ∀ x y, P x → P y → P (op x y))
    (hmin : ∀ x y, P x → P y → g (op x y) = g x ⊓ g y) (hneutral : ∀ x, op x b = x)
    (hx : ∀ i ∈ S, P (x i)) (hne : S.Nonempty) :
    P (S.fold op b x) ∧ g (S.fold op b x) = level S hne fun i => g (x i) := by
  induction hne using Finset.Nonempty.cons_induction with
  | singleton i =>
    rw [Finset.fold_singleton, hneutral]
    exact ⟨hx i (Finset.mem_singleton_self i), rfl⟩
  | cons i S hi hne ih =>
    obtain ⟨hP, hg⟩ := ih fun j hj => hx j (Finset.mem_cons_of_mem hj)
    have hi' : P (x i) := hx i (Finset.mem_cons_self i S)
    rw [Finset.fold_cons hi]
    refine ⟨hclosed _ _ hi' hP, ?_⟩
    rw [hmin _ _ hi' hP, hg]
    unfold level
    rw [Finset.inf'_cons hne]

end Wired

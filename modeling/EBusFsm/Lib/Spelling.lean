import EBusFsm.Lib.Stuffing

/-!
# Spellings of a stuffed text

The decoder of an escape code is lax, so a text has many spellings: `Spells w l` says how a string `w` can
be put together so that it is read as `l`. Each reserved symbol of `l` is spelled by a run of reserved symbols
and one symbol behind it, and reserved symbols at the end spell nothing. `spells_iff` identifies the spellings
with what the decoder reads.
-/

namespace EscapeCode

variable {α : Type} (c : EscapeCode α)

/-- A run of reserved symbols that is not empty. -/
def Stutter (r : List α) : Prop := r ≠ [] ∧ ∀ a ∈ r, c.Reserved a

inductive Spells : List α → List α → Prop
  | trailing {r : List α} (hr : ∀ a ∈ r, c.Reserved a) : Spells r []
  | plain {a : α} {w l : List α} (ha : ¬ c.Reserved a) (h : Spells w l) : Spells (a :: w) (a :: l)
  | flag {r w l : List α} (hr : c.Stutter r) (h : Spells w l) : Spells (r ++ c.flagCode :: w) (c.flag :: l)
  | esc {r w l : List α} {b : α} (hr : c.Stutter r) (hb : ¬ c.Reserved b) (hcode : b ≠ c.flagCode)
      (h : Spells w l) : Spells (r ++ b :: w) (c.esc :: l)

variable {c}

variable [DecidableEq α]

theorem unstuffFrom_reserved_append {r : List α} (hr : ∀ a ∈ r, c.Reserved a) (p : Bool) (w : List α) :
    c.unstuffFrom p (r ++ w) = c.unstuffFrom (p || decide (r ≠ [])) w := by
  induction r generalizing p with
  | nil => simp
  | cons a r ih =>
    rw [List.forall_mem_cons] at hr
    rw [List.cons_append, c.unstuffFrom_reserved hr.1, ih hr.2]
    simp

theorem unstuff_stutter {r : List α} (hr : c.Stutter r) {b : α} (hb : ¬ c.Reserved b) (w : List α) :
    c.unstuff (r ++ b :: w) = (if b = c.flagCode then c.flag else c.esc) :: c.unstuff w := by
  rw [unstuff, unstuffFrom_reserved_append hr.2, decide_eq_true hr.1, Bool.or_true,
    c.unstuffFrom_true hb, unstuff]

theorem Spells.unstuff_eq {w l : List α} (h : c.Spells w l) : c.unstuff w = l := by
  induction h with
  | @trailing r hr =>
    have hread := unstuffFrom_reserved_append hr false []
    rw [List.append_nil, unstuffFrom_nil] at hread
    exact hread
  | plain ha _ ih =>
    rw [unstuff] at ih
    rw [unstuff, c.unstuffFrom_false ha, ih]
  | flag hr _ ih => rw [unstuff_stutter hr c.not_reserved_flagCode, if_pos rfl, ih]
  | esc hr hb hcode _ ih => rw [unstuff_stutter hr hb, if_neg hcode, ih]

/-- Every string is a spelling of what is read from it; behind a run `r` the induction keeps the run. -/
theorem spells_unstuff (w : List α) : c.Spells w (c.unstuff w) := by
  suffices hgeneral : ∀ r : List α, (∀ a ∈ r, c.Reserved a) →
      c.Spells (r ++ w) (c.unstuffFrom (decide (r ≠ [])) w) from hgeneral [] nofun
  induction w with
  | nil =>
    intro r hr
    rw [List.append_nil, unstuffFrom_nil]
    exact .trailing hr
  | cons b w ih =>
    intro r hr
    by_cases hb : c.Reserved b
    · have hrun := ih (r ++ [b]) fun a ha => by
        rcases List.mem_append.1 ha with ha | ha
        · exact hr a ha
        · rw [List.mem_singleton.1 ha]
          exact hb
      rw [List.append_assoc, List.singleton_append] at hrun
      rw [c.unstuffFrom_reserved hb]
      simpa using hrun
    · have hrest := ih [] nofun
      rw [List.nil_append] at hrest
      by_cases hne : r = []
      · subst hne
        rw [List.nil_append]
        exact c.unstuffFrom_false hb w ▸ .plain hb hrest
      · rw [decide_eq_true hne, c.unstuffFrom_true hb]
        by_cases hcode : b = c.flagCode
        · subst hcode
          rw [if_pos rfl]
          exact .flag ⟨hne, hr⟩ hrest
        · rw [if_neg hcode]
          exact .esc ⟨hne, hr⟩ hb hcode hrest

theorem spells_iff (w l : List α) : c.Spells w l ↔ c.unstuff w = l :=
  ⟨Spells.unstuff_eq, fun h => h ▸ spells_unstuff w⟩

end EscapeCode

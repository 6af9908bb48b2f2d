import Mathlib.Tactic

/-!
# Codes of two digits

A `PairCode` writes each symbol as two digits. `write` writes a list of symbols, `read` takes the digits two at
a time and leaves an unpaired last one. What was written is read back (`read_write`); what was read from valid
digits is written in their canonical form (`write_read`).
-/

structure PairCode (α β : Type) where
  digits : α → List β
  value : List β → α
  length_digits : ∀ a, (digits a).length = 2
  value_digits : ∀ a, value (digits a) = a

namespace PairCode

variable {α β : Type} (code : PairCode α β)

def write (v : List α) : List β := v.flatMap code.digits

def read : List β → List α
  | b :: b' :: s => code.value [b, b'] :: read s
  | _ => []

theorem read_digits_append (a : α) (s : List β) : code.read (code.digits a ++ s) = a :: code.read s := by
  obtain ⟨b, b', hdigits⟩ := List.length_eq_two.1 (code.length_digits a)
  have hvalue := code.value_digits a
  rw [hdigits] at hvalue ⊢
  rw [List.cons_append, List.singleton_append, read, hvalue]

theorem read_write (v : List α) : code.read (code.write v) = v := by
  induction v with
  | nil => simp [read, write]
  | cons a v ih =>
    rw [write, List.flatMap_cons, read_digits_append]
    exact congrArg _ ih

/-- Valid digits are written in their canonical form, without an unpaired last one. -/
theorem write_read {Valid : β → Prop} {canonical : β → β}
    (hcode : ∀ b b', Valid b → Valid b' → code.digits (code.value [b, b']) = [canonical b, canonical b'])
    {s : List β} (hs : ∀ b ∈ s, Valid b) :
    code.write (code.read s) = (s.take (2 * (s.length / 2))).map canonical := by
  induction s using List.twoStepInduction with
  | nil => simp [read, write]
  | singleton b => simp [read, write]
  | cons_cons b b' s ih _ =>
    obtain ⟨hb, hb', hrest⟩ : Valid b ∧ Valid b' ∧ ∀ c ∈ s, Valid c := by simpa using hs
    have hlen : 2 * ((b :: b' :: s).length / 2) = 2 * (s.length / 2) + 2 := by
      simp only [List.length_cons]
      omega
    have hwrite : code.write (code.read (b :: b' :: s)) =
        code.digits (code.value [b, b']) ++ code.write (code.read s) := by
      rw [read, write, List.flatMap_cons]
      rfl
    rw [hwrite, hcode b b' hb hb', ih hrest, hlen, List.take_succ_cons, List.take_succ_cons, List.map_cons,
      List.map_cons]
    rfl

end PairCode

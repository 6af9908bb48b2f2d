import EBusFsm.Lib.Stuffing
import Mathlib.Data.Stream.Init

/-!
# Counting readers on an endless string

A reader that waits for one more symbol after every escape symbol need not stop: on an endless string of
escape symbols it never does. `exists_counted_iff` says when it stops within a bound and before anything
that stands behind a flag: the string holds enough symbols within the bound, and up to each of its flags.
-/

namespace EscapeCode

variable {α : Type} [DecidableEq α] (c : EscapeCode α)

/-- How many of the first `k` symbols are not the escape symbol. -/
def symbols (s : Stream' α) (k : Nat) : Nat := (s.take k).countP (· ≠ c.esc)

variable {c}

/-- The reader stops at the symbol that makes the number full. -/
theorem counted_concat_iff (l : List α) (a : α) (n : Nat) :
    c.Counted (n + 1) (l ++ [a]) ↔ l.countP (· ≠ c.esc) = n ∧ a ≠ c.esc := by
  induction l generalizing n with
  | nil =>
    by_cases ha : a = c.esc
    · rw [ha, List.nil_append, counted_escape_iff]
      exact iff_of_false (fun h => h.ne_nil rfl) fun h => h.2 rfl
    · rw [List.nil_append, counted_symbol_iff ha]
      constructor
      · intro h
        cases h
        exact ⟨rfl, ha⟩
      · rintro ⟨rfl, -⟩
        exact .nil
  | cons b l ih =>
    by_cases hb : b = c.esc
    · rw [hb, List.cons_append, counted_escape_iff, ih, List.countP_cons_of_neg (by simp)]
    · rw [List.cons_append, counted_symbol_iff hb, List.countP_cons_of_pos (by simpa using hb)]
      cases n with
      | zero => exact iff_of_false (fun h => by simpa using h.eq_nil) fun h => absurd h.1 (Nat.succ_ne_zero _)
      | succ n => rw [ih, Nat.add_right_cancel_iff]

variable (s : Stream' α)

@[simp] theorem symbols_zero : c.symbols s 0 = 0 := rfl

theorem symbols_succ (k : Nat) :
    c.symbols s (k + 1) = c.symbols s k + if s.get k ≠ c.esc then 1 else 0 := by
  unfold symbols
  rw [Stream'.take_succ', List.countP_append, List.countP_singleton]
  simp only [decide_eq_true_eq]

theorem symbols_mono : Monotone (c.symbols s) := by
  apply monotone_nat_of_le_succ
  intro k
  rw [symbols_succ]
  omega

theorem counted_take_iff (n k : Nat) :
    c.Counted (n + 1) (s.take (k + 1)) ↔ c.symbols s k = n ∧ s.get k ≠ c.esc := by
  rw [Stream'.take_succ', counted_concat_iff]
  rfl

omit [DecidableEq α] in
theorem mem_take_iff (a : α) (k : Nat) : a ∈ s.take k ↔ ∃ i < k, s.get i = a := by
  induction k with
  | zero => simp
  | succ k ih =>
    rw [Stream'.take_succ', List.mem_append, List.mem_singleton, ih]
    constructor
    · rintro (⟨i, hi, ha⟩ | ha)
      · exact ⟨i, by omega, ha⟩
      · exact ⟨k, by omega, ha.symm⟩
    · rintro ⟨i, hi, ha⟩
      rcases Nat.lt_succ_iff_lt_or_eq.1 hi with hlt | rfl
      · exact .inl ⟨i, hlt, ha⟩
      · exact .inr ha.symm

/-- **The reader stops within `K` symbols, and takes a flag only as the last one, exactly when there are
enough symbols within `K` and up to each flag.** -/
theorem exists_counted_iff (n K : Nat) :
    (∃ k ≤ K, c.Counted (n + 1) (s.take k) ∧ c.flag ∉ (s.take k).dropLast) ↔
      n + 1 ≤ c.symbols s K ∧ ∀ i, s.get i = c.flag → n + 1 ≤ c.symbols s (i + 1) := by
  constructor
  · rintro ⟨k, hk, hcount, hflag⟩
    cases k with
    | zero => exact absurd rfl hcount.ne_nil
    | succ k =>
      rw [Stream'.dropLast_take, Nat.add_sub_cancel, mem_take_iff] at hflag
      have hfull : c.symbols s (k + 1) = n + 1 := by
        obtain ⟨hn, hesc⟩ := (counted_take_iff s n k).1 hcount
        rw [symbols_succ, hn, if_pos hesc]
      refine ⟨hfull ▸ symbols_mono s hk, fun i hi => ?_⟩
      have hle : k ≤ i := Nat.le_of_not_lt fun hlt => hflag ⟨i, hlt, hi⟩
      exact hfull ▸ symbols_mono s (Nat.succ_le_succ hle)
  · rintro ⟨hK, hflag⟩
    have hex : ∃ k, n + 1 ≤ c.symbols s k := ⟨K, hK⟩
    -- the reader stops at the first place where the number is full
    obtain ⟨k, hk⟩ : ∃ k, Nat.find hex = k + 1 := by
      apply Nat.exists_eq_succ_of_ne_zero
      intro hzero
      have hspec := Nat.find_spec hex
      rw [hzero, symbols_zero] at hspec
      omega
    have hfull := Nat.find_spec hex
    rw [hk, symbols_succ] at hfull
    have hless : ∀ j ≤ k, c.symbols s j ≤ n := by
      intro j hj
      have hno := Nat.find_min hex (m := j) (by omega)
      omega
    have hlast := hless k le_rfl
    refine ⟨k + 1, ?_, (counted_take_iff s n k).2 ?_, ?_⟩
    · rw [← hk]
      exact Nat.find_min' hex hK
    · split_ifs at hfull with hesc
      · exact ⟨by omega, hesc⟩
      · omega
    · rw [Stream'.dropLast_take, Nat.add_sub_cancel, mem_take_iff]
      rintro ⟨i, hi, hget⟩
      have hi' := hflag i hget
      have hle := hless (i + 1) hi
      omega

end EscapeCode

import Mathlib.Data.List.Basic
import Mathlib.Tactic

/-!
# Byte stuffing

An escape code over an alphabet reserves two symbols: a flag, which must not occur in a payload,
and an escape symbol. `stuff` replaces each of them by the escape symbol and a code symbol;
`unstuff` undoes it with one bit of state, "the last symbol was reserved". The decoder is lax: it
accepts any string, treats a stray flag like an escape symbol, and reads any symbol after an escape
other than the flag's code as the escape symbol. Nothing here depends on the alphabet.

`unstuff_stuff` is the round trip, `stuff_unstuff` its converse on the canonical strings
(`Canonical`), and `length_unstuffFrom` counts what the lax decoder keeps of an arbitrary string.
`Counted n l` says that `l` is what a reader takes from a stream that waits for `n` symbols and for one
more after every escape symbol; `length_unstuff_counted` compares its count with that of the decoder.
-/

/-- Two reserved symbols and the code symbol that stands for each after the escape symbol. -/
structure EscapeCode (α : Type) where
  flag : α
  esc : α
  flagCode : α
  escCode : α
  flag_ne_esc : flag ≠ esc
  codes_ne : flagCode ≠ escCode
  flagCode_ne_flag : flagCode ≠ flag
  flagCode_ne_esc : flagCode ≠ esc
  escCode_ne_flag : escCode ≠ flag
  escCode_ne_esc : escCode ≠ esc

namespace EscapeCode

section Reserved

variable {α : Type} (c : EscapeCode α)

/-- A symbol that may not stand for itself. -/
def Reserved (a : α) : Prop := a = c.flag ∨ a = c.esc

/-- No symbol of the string is reserved. -/
def Plain (l : List α) : Prop := ∀ a ∈ l, ¬ c.Reserved a

/-- The strings in which no flag occurs and every escape symbol is followed by a code symbol. -/
def Canonical : List α → Prop
  | [] => True
  | [a] => a ≠ c.flag ∧ a ≠ c.esc
  | a :: b :: l =>
    a ≠ c.flag ∧ (a = c.esc → b = c.flagCode ∨ b = c.escCode) ∧ Canonical (b :: l)

theorem reserved_flag : c.Reserved c.flag := Or.inl rfl

theorem reserved_esc : c.Reserved c.esc := Or.inr rfl

theorem not_reserved_flagCode : ¬ c.Reserved c.flagCode := fun h =>
  h.elim c.flagCode_ne_flag c.flagCode_ne_esc

theorem not_reserved_escCode : ¬ c.Reserved c.escCode := fun h =>
  h.elim c.escCode_ne_flag c.escCode_ne_esc

@[simp] theorem plain_nil : c.Plain [] := by simp [Plain]

@[simp] theorem plain_cons (a : α) (l : List α) :
    c.Plain (a :: l) ↔ ¬ c.Reserved a ∧ c.Plain l := by
  simp [Plain]

@[simp] theorem plain_append (l r : List α) : c.Plain (l ++ r) ↔ c.Plain l ∧ c.Plain r := by
  simp only [Plain, List.mem_append]
  exact ⟨fun h => ⟨fun a ha => h a (Or.inl ha), fun a ha => h a (Or.inr ha)⟩,
    fun h a ha => ha.elim (h.1 a) (h.2 a)⟩

theorem canonical_cons (a : α) (l : List α) :
    c.Canonical (a :: l) ↔ a ≠ c.flag ∧
      (a = c.esc → l.head? = some c.flagCode ∨ l.head? = some c.escCode) ∧ c.Canonical l := by
  cases l with
  | nil => exact ⟨fun h => ⟨h.1, fun he => absurd he h.2, trivial⟩, fun h => ⟨h.1, fun he => nomatch h.2.1 he⟩⟩
  | cons b l => simp only [Canonical, List.head?_cons, Option.some.injEq]

theorem canonical_iff (l : List α) :
    c.Canonical l ↔ c.flag ∉ l ∧ ∀ i, l[i]? = some c.esc →
      l[i + 1]? = some c.flagCode ∨ l[i + 1]? = some c.escCode := by
  induction l with
  | nil => exact ⟨fun _ => ⟨List.not_mem_nil, nofun⟩, fun _ => trivial⟩
  | cons a l ih =>
    rw [canonical_cons, ih, List.mem_cons, not_or]
    constructor
    · rintro ⟨hflag, hesc, hno, hl⟩
      refine ⟨⟨hflag.symm, hno⟩, fun i hi => ?_⟩
      cases i with
      | zero =>
        rw [List.getElem?_cons_succ, ← List.head?_eq_getElem?]
        exact hesc (by simpa using hi)
      | succ i => exact hl i hi
    · rintro ⟨⟨hflag, hno⟩, hl⟩
      refine ⟨Ne.symm hflag, fun he => ?_, hno, fun i => hl (i + 1)⟩
      have hnext := hl 0 (by rw [he, List.getElem?_cons_zero])
      rwa [List.getElem?_cons_succ, ← List.head?_eq_getElem?] at hnext

/-- A canonical string does not end with a reserved symbol. -/
theorem not_reserved_of_canonical_concat {l : List α} {a : α} (h : c.Canonical (l ++ [a])) : ¬ c.Reserved a := by
  rw [canonical_iff] at h
  rintro (rfl | rfl)
  · exact h.1 (by simp)
  · have hnext := h.2 l.length (by simp)
    simp at hnext

theorem canonical_cons_of_not_reserved {a : α} (ha : ¬ c.Reserved a) (l : List α)
    (h : c.Canonical l) : c.Canonical (a :: l) := by
  simp only [Reserved, not_or] at ha
  cases l with
  | nil => exact ha
  | cons b l => exact ⟨ha.1, fun he => absurd he ha.2, h⟩

theorem canonical_tail {a : α} {l : List α} (h : c.Canonical (a :: l)) : c.Canonical l := by
  cases l with
  | nil => trivial
  | cons b l => exact h.2.2

theorem canonical_escape {b : α} (hb : b = c.flagCode ∨ b = c.escCode) (l : List α)
    (h : c.Canonical l) : c.Canonical (c.esc :: b :: l) := by
  refine ⟨c.flag_ne_esc.symm, fun _ => hb, ?_⟩
  rcases hb with rfl | rfl
  · exact c.canonical_cons_of_not_reserved c.not_reserved_flagCode l h
  · exact c.canonical_cons_of_not_reserved c.not_reserved_escCode l h

end Reserved

section Stuffing

variable {α : Type} [DecidableEq α] (c : EscapeCode α)

instance (a : α) : Decidable (c.Reserved a) := inferInstanceAs (Decidable (_ ∨ _))

instance (l : List α) : Decidable (c.Plain l) := inferInstanceAs (Decidable (∀ a ∈ l, _))

def stuff : List α → List α
  | [] => []
  | a :: l =>
    if a = c.flag then c.esc :: c.flagCode :: stuff l
    else if a = c.esc then c.esc :: c.escCode :: stuff l
    else a :: stuff l

/-- The decoder's loop; the bit says whether the last symbol was reserved. -/
def unstuffFrom : Bool → List α → List α
  | _, [] => []
  | pending, a :: l =>
    if c.Reserved a then unstuffFrom true l
    else if pending then (if a = c.flagCode then c.flag else c.esc) :: unstuffFrom false l
    else a :: unstuffFrom false l

def unstuff (l : List α) : List α := c.unstuffFrom false l

/-- The decoder's bit after a string. -/
def pendingAfter : Bool → List α → Bool
  | pending, [] => pending
  | _, a :: l => pendingAfter (decide (c.Reserved a)) l

/-! ### Stuffing -/

@[simp] theorem stuff_nil : c.stuff [] = [] := rfl

theorem stuff_flag (l : List α) : c.stuff (c.flag :: l) = c.esc :: c.flagCode :: c.stuff l := by
  simp [stuff]

theorem stuff_esc (l : List α) : c.stuff (c.esc :: l) = c.esc :: c.escCode :: c.stuff l := by
  simp [stuff, c.flag_ne_esc.symm]

theorem stuff_cons_of_not_reserved {a : α} (ha : ¬ c.Reserved a) (l : List α) :
    c.stuff (a :: l) = a :: c.stuff l := by
  simp only [Reserved, not_or] at ha
  simp [stuff, ha.1, ha.2]

theorem stuff_append (l r : List α) : c.stuff (l ++ r) = c.stuff l ++ c.stuff r := by
  induction l with
  | nil => rfl
  | cons a l ih =>
    simp only [List.cons_append, stuff, ih]
    split_ifs <;> simp

theorem stuff_of_plain {l : List α} (h : c.Plain l) : c.stuff l = l := by
  induction l with
  | nil => rfl
  | cons a l ih =>
    rw [plain_cons] at h
    rw [c.stuff_cons_of_not_reserved h.1, ih h.2]

theorem length_le_length_stuff (l : List α) : l.length ≤ (c.stuff l).length := by
  induction l with
  | nil => simp
  | cons a l ih =>
    simp only [stuff]
    split_ifs <;> simp only [List.length_cons] <;> omega

theorem length_stuff_le (l : List α) : (c.stuff l).length ≤ 2 * l.length := by
  induction l with
  | nil => simp
  | cons a l ih =>
    simp only [stuff]
    split_ifs <;> simp only [List.length_cons] <;> omega

/-- Stuffing a string that has a reserved symbol makes it longer, so the two are equal only when
nothing had to be escaped. -/
theorem length_stuff_eq_iff (l : List α) : (c.stuff l).length = l.length ↔ c.Plain l := by
  refine ⟨fun h => ?_, fun h => by rw [c.stuff_of_plain h]⟩
  induction l with
  | nil => exact c.plain_nil
  | cons a l ih =>
    have hle := c.length_le_length_stuff l
    rw [plain_cons]
    by_cases ha : c.Reserved a
    · exfalso
      rcases ha with rfl | rfl
      · rw [stuff_flag] at h
        simp only [List.length_cons] at h
        omega
      · rw [stuff_esc] at h
        simp only [List.length_cons] at h
        omega
    · rw [c.stuff_cons_of_not_reserved ha] at h
      exact ⟨ha, ih (by simpa using h)⟩

theorem stuff_eq_self_iff (l : List α) : c.stuff l = l ↔ c.Plain l :=
  ⟨fun h => (c.length_stuff_eq_iff l).1 (congrArg List.length h), c.stuff_of_plain⟩

/-! ### Unstuffing -/

@[simp] theorem unstuffFrom_nil (p : Bool) : c.unstuffFrom p [] = [] := by
  cases p <;> rfl

theorem unstuffFrom_reserved {a : α} (ha : c.Reserved a) (p : Bool) (l : List α) :
    c.unstuffFrom p (a :: l) = c.unstuffFrom true l := by
  cases p <;> simp [unstuffFrom, ha]

theorem unstuffFrom_true {a : α} (ha : ¬ c.Reserved a) (l : List α) :
    c.unstuffFrom true (a :: l) =
      (if a = c.flagCode then c.flag else c.esc) :: c.unstuffFrom false l := by
  simp [unstuffFrom, ha]

theorem unstuffFrom_false {a : α} (ha : ¬ c.Reserved a) (l : List α) :
    c.unstuffFrom false (a :: l) = a :: c.unstuffFrom false l := by
  simp [unstuffFrom, ha]

@[simp] theorem pendingAfter_nil (p : Bool) : c.pendingAfter p [] = p := rfl

theorem unstuffFrom_append (p : Bool) (l r : List α) :
    c.unstuffFrom p (l ++ r) = c.unstuffFrom p l ++ c.unstuffFrom (c.pendingAfter p l) r := by
  induction l generalizing p with
  | nil => simp
  | cons a l ih =>
    by_cases ha : c.Reserved a
    · rw [List.cons_append, c.unstuffFrom_reserved ha, c.unstuffFrom_reserved ha, ih]
      simp [pendingAfter, ha]
    · cases p
      · rw [List.cons_append, c.unstuffFrom_false ha, c.unstuffFrom_false ha, ih]
        simp [pendingAfter, ha]
      · rw [List.cons_append, c.unstuffFrom_true ha, c.unstuffFrom_true ha, ih]
        simp [pendingAfter, ha]

theorem unstuffFrom_of_plain {l : List α} (h : c.Plain l) : c.unstuffFrom false l = l := by
  induction l with
  | nil => simp
  | cons a l ih =>
    rw [plain_cons] at h
    rw [c.unstuffFrom_false h.1, ih h.2]

/-- The decoder emits one symbol for every symbol that is not reserved. -/
theorem length_unstuffFrom (p : Bool) (l : List α) :
    (c.unstuffFrom p l).length = l.countP (fun a => ¬ c.Reserved a) := by
  induction l generalizing p with
  | nil => simp
  | cons a l ih =>
    by_cases ha : c.Reserved a
    · rw [c.unstuffFrom_reserved ha, ih]
      simp [ha]
    · cases p
      · rw [c.unstuffFrom_false ha]
        simp [ha, ih]
      · rw [c.unstuffFrom_true ha]
        simp [ha, ih]

theorem pendingAfter_stuff (l : List α) : c.pendingAfter false (c.stuff l) = false := by
  induction l with
  | nil => rfl
  | cons a l ih =>
    by_cases ha : c.Reserved a
    · rcases ha with rfl | rfl
      · simp [stuff_flag, pendingAfter, c.not_reserved_flagCode, ih]
      · simp [stuff_esc, pendingAfter, c.not_reserved_escCode, ih]
    · simp [c.stuff_cons_of_not_reserved ha, pendingAfter, ha, ih]

/-- Stuffed text in front of anything decodes to the text. -/
theorem unstuff_stuff_append (l r : List α) : c.unstuff (c.stuff l ++ r) = l ++ c.unstuff r := by
  have h : c.unstuffFrom false (c.stuff l) = l := by
    induction l with
    | nil => simp
    | cons a l ih =>
      by_cases ha : c.Reserved a
      · rcases ha with rfl | rfl
        · rw [stuff_flag, c.unstuffFrom_reserved c.reserved_esc,
            c.unstuffFrom_true c.not_reserved_flagCode, ih, if_pos rfl]
        · rw [stuff_esc, c.unstuffFrom_reserved c.reserved_esc,
            c.unstuffFrom_true c.not_reserved_escCode, ih, if_neg c.codes_ne.symm]
      · rw [c.stuff_cons_of_not_reserved ha, c.unstuffFrom_false ha, ih]
  rw [unstuff, unstuffFrom_append, h, pendingAfter_stuff, unstuff]

/-- **Stuffing is lossless.** -/
@[simp] theorem unstuff_stuff (l : List α) : c.unstuff (c.stuff l) = l := by
  simpa [unstuff] using c.unstuff_stuff_append l []

/-! ### Canonical strings -/

/-- The encoder writes canonical strings only. -/
theorem canonical_stuff (l : List α) : c.Canonical (c.stuff l) := by
  induction l with
  | nil => trivial
  | cons a l ih =>
    by_cases ha : c.Reserved a
    · rcases ha with rfl | rfl
      · rw [stuff_flag]
        exact c.canonical_escape (Or.inl rfl) _ ih
      · rw [stuff_esc]
        exact c.canonical_escape (Or.inr rfl) _ ih
    · rw [c.stuff_cons_of_not_reserved ha]
      exact c.canonical_cons_of_not_reserved ha _ ih

/-- A beginning of a stuffed text decodes to a beginning of the text, and to less than the text if it is cut off. -/
theorem unstuff_prefix {l w : List α} (h : w <+: c.stuff l) :
    c.unstuff w <+: l ∧ (w ≠ c.stuff l → c.unstuff w ≠ l) := by
  obtain ⟨t, ht⟩ := h
  have hsplit : c.unstuff w ++ c.unstuffFrom (c.pendingAfter false w) t = l := by
    rw [unstuff, ← unstuffFrom_append, ht]
    exact c.unstuff_stuff l
  refine ⟨⟨_, hsplit⟩, fun hne heq => hne ?_⟩
  have hnil : c.unstuffFrom (c.pendingAfter false w) t = [] := by
    rw [heq] at hsplit
    exact List.append_right_eq_self.1 hsplit
  rcases List.eq_nil_or_concat t with rfl | ⟨t, a, rfl⟩
  · rw [← ht, List.append_nil]
  · have ha : ¬ c.Reserved a := by
      refine c.not_reserved_of_canonical_concat (l := w ++ t) ?_
      rw [List.append_assoc, ← List.concat_eq_append, ht]
      exact c.canonical_stuff l
    have hlen := c.length_unstuffFrom (c.pendingAfter false w) (t.concat a)
    rw [hnil, List.concat_eq_append, List.countP_append] at hlen
    simp [ha] at hlen

/-- Every canonical string is the stuffed form of what the decoder reads from it. -/
theorem stuff_unstuff (l : List α) (h : c.Canonical l) : c.stuff (c.unstuff l) = l := by
  induction hn : l.length using Nat.strong_induction_on generalizing l with
  | _ n ih =>
    rcases l with _ | ⟨a, l⟩
    · rfl
    have hlen : l.length < n := by
      rw [← hn]
      exact Nat.lt_succ_self _
    by_cases ha : c.Reserved a
    · rcases l with _ | ⟨b, l⟩
      · exact absurd ha (not_or.2 h)
      obtain rfl : a = c.esc := ha.resolve_left h.1
      have hl := c.canonical_tail (c.canonical_tail h)
      have hrest := ih l.length ((Nat.lt_succ_self _).trans hlen) l hl rfl
      rw [unstuff] at hrest
      rcases h.2.1 rfl with rfl | rfl
      · rw [unstuff, c.unstuffFrom_reserved c.reserved_esc, c.unstuffFrom_true c.not_reserved_flagCode,
          if_pos rfl, stuff_flag, hrest]
      · rw [unstuff, c.unstuffFrom_reserved c.reserved_esc, c.unstuffFrom_true c.not_reserved_escCode,
          if_neg c.codes_ne.symm, stuff_esc, hrest]
    · have hrest := ih l.length hlen l (c.canonical_tail h) rfl
      rw [unstuff] at hrest
      rw [unstuff, c.unstuffFrom_false ha, c.stuff_cons_of_not_reserved ha, hrest]

end Stuffing

/-! ### Counting readers -/

section Counted

variable {α : Type} {c : EscapeCode α}

/-- `l` is what a reader takes that waits for `n` symbols and for one more after every escape symbol. -/
inductive Counted (c : EscapeCode α) : Nat → List α → Prop
  | nil : Counted c 0 []
  | symbol {a : α} {n : Nat} {l : List α} (ha : a ≠ c.esc) (h : Counted c n l) :
      Counted c (n + 1) (a :: l)
  | escape {n : Nat} {l : List α} (h : Counted c (n + 1) l) :
      Counted c (n + 1) (c.esc :: l)

theorem Counted.eq_nil {l : List α} (h : c.Counted 0 l) : l = [] := by
  cases h
  rfl

theorem Counted.ne_nil {n : Nat} {l : List α} (h : c.Counted (n + 1) l) : l ≠ [] := by
  cases h <;> simp

theorem counted_escape_iff (n : Nat) (l : List α) :
    c.Counted (n + 1) (c.esc :: l) ↔ c.Counted (n + 1) l := by
  refine ⟨fun h => ?_, .escape⟩
  cases h with
  | symbol ha _ => exact absurd rfl ha
  | escape h => exact h

theorem counted_symbol_iff {a : α} (ha : a ≠ c.esc) (n : Nat) (l : List α) :
    c.Counted (n + 1) (a :: l) ↔ c.Counted n l := by
  refine ⟨fun h => ?_, .symbol ha⟩
  cases h with
  | symbol _ h => exact h
  | escape _ => exact absurd rfl ha

/-- The reader waits for more than `l`. -/
def Short (c : EscapeCode α) (n : Nat) (l : List α) : Prop := ∀ p t, l = p ++ t → ¬ c.Counted n p

theorem short_nil (n : Nat) : c.Short (n + 1) [] := by
  intro p t h hp
  exact hp.ne_nil (List.append_eq_nil_iff.1 h.symm).1

theorem Short.cons {a : α} {n k : Nat} {l : List α}
    (ha : ∀ r, c.Counted k r ↔ c.Counted (n + 1) (a :: r)) (h : c.Short k l) :
    c.Short (n + 1) (a :: l) := by
  intro p t hl hp
  cases p with
  | nil => exact hp.ne_nil rfl
  | cons b p =>
    obtain ⟨rfl, rfl⟩ := List.cons.inj hl
    exact h p t rfl ((ha p).2 hp)

theorem Counted.append {n k : Nat} {l r : List α} (hl : c.Counted n l) (hr : c.Counted k r) :
    c.Counted (n + k) (l ++ r) := by
  induction hl with
  | nil => simpa using hr
  | symbol ha _ ih =>
    rw [Nat.add_right_comm]
    exact .symbol ha ih
  | escape _ ih =>
    rw [Nat.add_right_comm] at ih ⊢
    exact .escape ih

/-- A reader that waits for more symbols has first read those of a reader that waits for fewer. -/
theorem Counted.split {n k : Nat} {l : List α} (h : c.Counted (n + k) l) :
    ∃ d r, c.Counted n d ∧ c.Counted k r ∧ l = d ++ r := by
  induction l generalizing n with
  | nil =>
    cases n with
    | zero => exact ⟨[], [], .nil, by rwa [Nat.zero_add] at h, rfl⟩
    | succ n =>
      rw [Nat.add_right_comm] at h
      exact absurd rfl h.ne_nil
  | cons a l ih =>
    cases n with
    | zero => exact ⟨[], a :: l, .nil, by rwa [Nat.zero_add] at h, rfl⟩
    | succ n =>
      rw [Nat.add_right_comm] at h
      by_cases ha : a = c.esc
      · rw [ha] at h ⊢
        rw [counted_escape_iff, Nat.add_right_comm] at h
        obtain ⟨d, r, hd, hr, rfl⟩ := ih h
        exact ⟨c.esc :: d, r, .escape hd, hr, rfl⟩
      · rw [counted_symbol_iff ha] at h
        obtain ⟨d, r, hd, hr, rfl⟩ := ih h
        exact ⟨a :: d, r, .symbol ha hd, hr, rfl⟩

/-- The reader stops at one place only. -/
theorem Counted.append_inj {n : Nat} {l l' r r' : List α} (hl : c.Counted n l)
    (hl' : c.Counted n l') (h : l ++ r = l' ++ r') : l = l' ∧ r = r' := by
  induction hl generalizing l' with
  | nil =>
    rw [hl'.eq_nil] at h ⊢
    exact ⟨rfl, h⟩
  | symbol ha _ ih =>
    cases hl' with
    | symbol _ hl' =>
      obtain ⟨rfl, ht⟩ := List.cons.inj h
      obtain ⟨rfl, hr⟩ := ih hl' ht
      exact ⟨rfl, hr⟩
    | escape _ => exact absurd (List.cons.inj h).1 ha
  | escape _ ih =>
    cases hl' with
    | symbol ha _ => exact absurd (List.cons.inj h).1.symm ha
    | escape hl' =>
      obtain ⟨rfl, hr⟩ := ih hl' (List.cons.inj h).2
      exact ⟨rfl, hr⟩

variable (c)

theorem counted_of_plain {l : List α} (h : c.Plain l) : c.Counted l.length l := by
  induction l with
  | nil => exact .nil
  | cons a l ih =>
    rw [plain_cons] at h
    exact .symbol (fun he => h.1 (Or.inr he)) (ih h.2)

variable [DecidableEq α]

/-- The decoder finds as many symbols as the reader counted, less the flags. -/
theorem length_unstuff_counted {n : Nat} {l : List α} (h : c.Counted n l) (p : Bool) :
    (c.unstuffFrom p l).length + l.count c.flag = n := by
  induction h generalizing p with
  | nil => simp
  | @symbol a n l ha _ ih =>
    by_cases hf : a = c.flag
    · subst hf
      rw [c.unstuffFrom_reserved c.reserved_flag, List.count_cons_self, ← ih true]
      omega
    · have hr : ¬ c.Reserved a := not_or.2 ⟨hf, ha⟩
      rw [List.count_cons_of_ne hf]
      cases p
      · rw [c.unstuffFrom_false hr, List.length_cons, ← ih false]
        omega
      · rw [c.unstuffFrom_true hr, List.length_cons, ← ih false]
        omega
  | escape _ ih =>
    rw [c.unstuffFrom_reserved c.reserved_esc, List.count_cons_of_ne c.flag_ne_esc.symm, ih]

variable {c} in
/-- A string is counted as one number of symbols only. -/
theorem Counted.unique {n k : Nat} {l : List α} (h : c.Counted n l) (h' : c.Counted k l) : n = k :=
  (c.length_unstuff_counted h false).symm.trans (c.length_unstuff_counted h' false)

/-- A counted string without flags leaves no escape open. -/
theorem pendingAfter_counted {n : Nat} {l : List α} (h : c.Counted (n + 1) l)
    (hflag : c.flag ∉ l) (p : Bool) : c.pendingAfter p l = false := by
  have key : ∀ {n : Nat} {l : List α}, c.Counted n l → c.flag ∉ l → ∀ p : Bool,
      c.pendingAfter p l = (p && n == 0) := by
    intro n l h
    induction h with
    | nil => intro _ p; simp
    | @symbol a n l ha _ ih =>
      intro hno p
      rw [List.mem_cons, not_or] at hno
      have hr : ¬ c.Reserved a := not_or.2 ⟨fun h => hno.1 h.symm, ha⟩
      simp [pendingAfter, hr, ih hno.2]
    | escape _ ih =>
      intro hno p
      rw [List.mem_cons, not_or] at hno
      simp [pendingAfter, c.reserved_esc, ih hno.2]
  rw [key h hflag]
  simp

/-- From stuffed text the reader takes exactly the text it counts. -/
theorem counted_stuff (l : List α) : c.Counted l.length (c.stuff l) := by
  induction l with
  | nil => exact .nil
  | cons a l ih =>
    by_cases ha : c.Reserved a
    · rcases ha with rfl | rfl
      · rw [stuff_flag]
        exact .escape (.symbol c.flagCode_ne_esc ih)
      · rw [stuff_esc]
        exact .escape (.symbol c.escCode_ne_esc ih)
    · rw [c.stuff_cons_of_not_reserved ha]
      exact .symbol (fun he => ha (Or.inr he)) ih

end Counted

end EscapeCode

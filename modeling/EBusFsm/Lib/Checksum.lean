import Mathlib.Algebra.Group.MinimalAxioms
import Mathlib.Data.ZMod.Basic
import Mathlib.Tactic

/-!
# Checksums of a linear register

A register takes one symbol at a time: it applies an additive map `T` to what it holds and adds the symbol.
The checksum of a text is what the register holds at the end, and a receiver compares it with the symbol that
follows the text. What it misses depends on the difference between what was sent and what arrived only
(`checksum_eq_iff`). Two kinds of differences are never missed: those whose sum under an additive map that `T`
respects does not vanish (`map_checksum`), and, if `T` is injective, short ones: `burst_undetected` says what is
left of them.

The symbols of a binary register are words of bits, with exclusive or for addition (`BitWord`); `mulX p` is one
step of the division by a polynomial. A difference is a `Burst` if its bits lie close together; `burst_split`
says what such a difference looks like as a string of words.
-/

section Register

variable {G : Type} [AddCommGroup G] (T : G →+ G)

/-- What the register holds after the symbols, from `r` on. -/
def registerAfter (r : G) : List G → G
  | [] => r
  | a :: l => registerAfter (T r + a) l

def checksum (l : List G) : G := registerAfter T 0 l

theorem registerAfter_append (r : G) (l l' : List G) :
    registerAfter T r (l ++ l') = registerAfter T (registerAfter T r l) l' := by
  induction l generalizing r with
  | nil => rfl
  | cons a l ih => exact ih _

theorem registerAfter_replicate (r : G) (k : ℕ) : registerAfter T r (List.replicate k 0) = T^[k] r := by
  induction k generalizing r with
  | zero => rfl
  | succ k ih =>
    rw [List.replicate_succ, registerAfter, add_zero, ih, Function.iterate_succ_apply]

/-- The register is linear in what it takes. -/
theorem registerAfter_sub {l l' : List G} (h : l.length = l'.length) (r r' : G) :
    registerAfter T (r - r') (List.zipWith (· - ·) l l') =
      registerAfter T r l - registerAfter T r' l' := by
  induction l generalizing l' r r' with
  | nil =>
    obtain rfl := List.length_eq_zero_iff.1 h.symm
    rfl
  | cons a l ih =>
    obtain ⟨a', l', rfl⟩ := List.exists_cons_of_length_eq_add_one h.symm
    have hstep : T (r - r') + (a - a') = T r + a - (T r' + a') := by
      rw [map_sub]
      abel
    rw [List.zipWith_cons_cons, registerAfter, hstep]
    exact ih (Nat.succ.inj h) _ _

/-- Whether another text has another checksum depends on the difference only. -/
theorem checksum_eq_iff {l l' : List G} (h : l.length = l'.length) (c' : G) :
    checksum T l' = c' ↔ checksum T (List.zipWith (· - ·) l l') = checksum T l - c' := by
  have hsub := registerAfter_sub T h 0 0
  rw [sub_zero] at hsub
  rw [checksum, checksum, checksum, hsub, sub_right_inj]

theorem map_registerAfter {H : Type} [AddCommGroup H] {φ : G →+ H} (hφ : ∀ x, φ (T x) = φ x) (r : G)
    (l : List G) : φ (registerAfter T r l) = φ r + (l.map φ).sum := by
  induction l generalizing r with
  | nil => simp [registerAfter]
  | cons a l ih =>
    rw [registerAfter, ih, map_add, hφ, List.map_cons, List.sum_cons, add_assoc]

/-- A map that `T` respects sees of a text no more than of its checksum. -/
theorem map_checksum {H : Type} [AddCommGroup H] {φ : G →+ H} (hφ : ∀ x, φ (T x) = φ x) (l : List G) :
    φ (checksum T l) = (l.map φ).sum := by
  rw [checksum, map_registerAfter T hφ, map_zero, zero_add]

/-- A difference of at most two neighbouring symbols, the last of which may be the checksum itself, is missed
only if the symbols agree in one of two ways. -/
theorem burst_undetected (hT : Function.Injective T) {e : List G} {x a : G} {n : ℕ} {r : List G}
    (he : e ++ [x] = List.replicate n 0 ++ a :: r) (ha : a ≠ 0)
    (hr : r = [] ∨ ∃ b k, r = b :: List.replicate k 0) (hmissed : checksum T e = x) :
    ∃ b, r.head? = some b ∧ (a = b ∨ T a + b = 0) := by
  have hzeros : ∀ l, checksum T (List.replicate n 0 ++ l) = registerAfter T 0 l := fun l => by
    rw [checksum, registerAfter_append, registerAfter_replicate, Function.iterate_fixed (map_zero T)]
  rcases hr with rfl | ⟨b, k, rfl⟩
  · obtain ⟨rfl, hx⟩ := List.append_inj' he rfl
    obtain rfl : x = a := List.singleton_inj.1 hx
    have hzero := hzeros []
    rw [List.append_nil, registerAfter, hmissed] at hzero
    exact absurd hzero ha
  · refine ⟨b, rfl, ?_⟩
    rcases k with _ | k
    · have hlast : e ++ [x] = (List.replicate n 0 ++ [a]) ++ [b] := by
        rw [he, List.append_assoc]
        rfl
      obtain ⟨rfl, hx⟩ := List.append_inj' hlast rfl
      obtain rfl : x = b := List.singleton_inj.1 hx
      rw [hzeros, registerAfter, registerAfter, map_zero, zero_add] at hmissed
      exact .inl hmissed
    · rw [List.replicate_succ', ← List.cons_append, ← List.cons_append, ← List.append_assoc] at he
      obtain ⟨rfl, hx⟩ := List.append_inj' he rfl
      obtain rfl : x = 0 := List.singleton_inj.1 hx
      rw [hzeros, registerAfter, registerAfter, map_zero, zero_add, registerAfter_replicate] at hmissed
      rw [← Function.iterate_fixed (map_zero T) k] at hmissed
      exact .inr (hT.iterate k hmissed)

end Register

/-! ### Words of bits -/

/-- A word of `w` bits; words are added by exclusive or. -/
@[ext]
structure BitWord (w : ℕ) where
  bits : BitVec w
  deriving DecidableEq

namespace BitWord

variable {w : ℕ}

instance : Zero (BitWord w) := ⟨⟨0⟩⟩

instance : Add (BitWord w) := ⟨fun a b => ⟨a.bits ^^^ b.bits⟩⟩

instance : Neg (BitWord w) := ⟨id⟩

@[simp] theorem bits_zero : (0 : BitWord w).bits = 0 := rfl

@[simp] theorem bits_add (a b : BitWord w) : (a + b).bits = a.bits ^^^ b.bits := rfl

@[simp] theorem neg_eq (a : BitWord w) : -a = a := rfl

instance : AddCommGroup (BitWord w) :=
  { AddGroup.ofLeftAxioms (fun _ _ _ => BitWord.ext (BitVec.xor_assoc _ _ _))
      (fun _ => BitWord.ext BitVec.zero_xor) (fun _ => BitWord.ext BitVec.xor_self) with
    add_comm := fun _ _ => BitWord.ext (BitVec.xor_comm _ _) }

@[simp] theorem bits_sub (a b : BitWord w) : (a - b).bits = a.bits ^^^ b.bits := by
  rw [sub_eq_add_neg, neg_eq, bits_add]

/-- The bits of a word, the most significant one first. -/
def toList (a : BitWord w) : List Bool := List.ofFn fun i : Fin w => a.bits.getMsbD i

@[simp] theorem length_toList (a : BitWord w) : a.toList.length = w := List.length_ofFn

theorem not_mem_toList_zero : true ∉ (0 : BitWord w).toList := by simp [toList]

theorem eq_zero_of_toList {a : BitWord w} (h : true ∉ a.toList) : a = 0 := by
  apply BitWord.ext
  apply BitVec.eq_of_getMsbD_eq
  intro i hi
  rw [toList, List.mem_ofFn, not_exists] at h
  have hbit := h ⟨i, hi⟩
  simpa using hbit

theorem toList_add (a b : BitWord w) : (a + b).toList = List.zipWith (· ^^ ·) a.toList b.toList := by
  apply List.ext_getElem
  · simp
  · intro i hi _
    simp [toList]

/-- Modulo two, the ones of a sum are those of the summands. -/
theorem count_zipWith_xor {l l' : List Bool} (h : l.length = l'.length) :
    ((List.zipWith (· ^^ ·) l l').count true : ZMod 2) = l.count true + l'.count true := by
  have htwo : (1 : ZMod 2) + 1 = 0 := rfl
  induction l generalizing l' with
  | nil =>
    obtain rfl := List.length_eq_zero_iff.1 h.symm
    simp
  | cons a l ih =>
    obtain ⟨a', l', rfl⟩ := List.exists_cons_of_length_eq_add_one h.symm
    have hrest := ih (Nat.succ.inj h)
    cases a <;> cases a' <;> simp [hrest]
    · ring
    · ring
    · linear_combination -htwo

/-- The number of ones modulo two. -/
def parity : BitWord w →+ ZMod 2 where
  toFun a := (a.toList.count true : ZMod 2)
  map_zero' := by
    rw [List.count_eq_zero_of_not_mem not_mem_toList_zero, Nat.cast_zero]
  map_add' a b := by
    rw [toList_add, count_zipWith_xor (by simp)]

theorem count_flatMap_toList (l : List (BitWord w)) :
    ((l.flatMap toList).count true : ZMod 2) = (l.map parity).sum := by
  induction l with
  | nil => rfl
  | cons a l ih =>
    rw [List.flatMap_cons, List.count_append, Nat.cast_add, ih, List.map_cons, List.sum_cons]
    rfl

/-- A register that keeps the parity misses only differences with an even number of ones. -/
theorem even_of_missed {T : BitWord w →+ BitWord w} (hT : ∀ x, parity (T x) = parity x)
    {e : List (BitWord w)} {x : BitWord w} (hmissed : checksum T e = x) :
    Even (((e ++ [x]).flatMap toList).count true) := by
  have hsum := map_checksum T hT e
  rw [hmissed] at hsum
  rw [← ZMod.natCast_eq_zero_iff_even, count_flatMap_toList, List.map_append, List.sum_append, ← hsum,
    List.map_singleton, List.sum_singleton, ← map_add, ← sub_neg_eq_add, neg_eq, sub_self, map_zero]

/-- One step of the division by a polynomial with the coefficients `p` below the leading one. -/
def mulX (p : BitVec w) : BitWord w →+ BitWord w where
  toFun a := ⟨a.bits <<< 1 ^^^ if a.bits.msb then p else 0⟩
  map_zero' := by
    apply BitWord.ext
    simp
  map_add' a b := by
    apply BitWord.ext
    simp only [bits_add, BitVec.shiftLeft_xor_distrib, BitVec.msb_xor]
    cases a.bits.msb <;> cases b.bits.msb <;> simp
    · ac_rfl
    · ac_rfl
    · rw [BitVec.xor_assoc, BitVec.xor_comm p, BitVec.xor_assoc, BitVec.xor_self, BitVec.xor_zero]

end BitWord

/-! ### Bursts -/

/-- The ones of the string lie within `n` consecutive places, and there is one. -/
def Burst (n : ℕ) (l : List Bool) : Prop :=
  true ∈ l ∧ ∃ s, ∀ i : ℕ, l[i]? = some true → s ≤ i ∧ i < s + n

section Split

variable {α : Type} {bits : α → List Bool} {w : ℕ} {zero : α}

/-- A burst no longer than a word lies in two neighbouring words, and ends in the second one before the place
where it begins in the first. -/
theorem burst_split (hw : ∀ a, (bits a).length = w) (hzero : ∀ a, true ∉ bits a → a = zero) {l : List α}
    (h : Burst w (l.flatMap bits)) :
    ∃ n a r, l = List.replicate n zero ++ a :: r ∧ ∃ p < w, (bits a)[p]? = some true ∧
      (∀ i < p, (bits a)[i]? ≠ some true) ∧ (r = [] ∨ ∃ b k, r = b :: List.replicate k zero ∧
        ∀ i : ℕ, (bits b)[i]? = some true → i < p) := by
  have hshift : ∀ (a : α) (m : List Bool) (i : ℕ), (bits a ++ m)[w + i]? = m[i]? := fun a m i => by
    rw [List.getElem?_append_right (by rw [hw]; omega), hw, Nat.add_sub_cancel_left]
  have hhead : ∀ (a : α) (m : List Bool) (i : ℕ), (bits a)[i]? = some true →
      (bits a ++ m)[i]? = some true := fun a m i hi => by
    rw [List.getElem?_append_left (List.getElem?_eq_some_iff.1 hi).1, hi]
  induction l with
  | nil => exact absurd h.1 List.not_mem_nil
  | cons a l ih =>
    obtain ⟨hmem, s, hs⟩ := h
    rw [List.flatMap_cons] at hmem hs
    by_cases ha : true ∈ bits a
    · have hex : ∃ i : ℕ, (bits a)[i]? = some true := List.mem_iff_getElem?.1 ha
      have hfirst := Nat.find_spec hex
      have hlt : Nat.find hex < w := by
        have hlen := (List.getElem?_eq_some_iff.1 hfirst).1
        rwa [hw] at hlen
      have hbegin := (hs _ (hhead a _ _ hfirst)).1
      have hbehind : ∀ i : ℕ, (l.flatMap bits)[i]? = some true → i < Nat.find hex := fun i hi => by
        have hend := (hs (w + i) (by rw [hshift, hi])).2
        omega
      refine ⟨0, a, l, rfl, Nat.find hex, hlt, hfirst, fun i hi => Nat.find_min hex hi, ?_⟩
      rcases l with _ | ⟨b, l⟩
      · exact .inl rfl
      rw [List.flatMap_cons] at hbehind
      -- a one behind the second word would be more than a word away from the first one
      have hl : l = List.replicate l.length zero := List.eq_replicate_of_mem fun c hc => by
        refine hzero c fun htrue => ?_
        obtain ⟨j, hj⟩ := List.mem_iff_getElem?.1 (List.mem_flatMap.2 ⟨c, hc, htrue⟩)
        have hfar := hbehind (w + j) (by rw [hshift, hj])
        omega
      exact .inr ⟨b, l.length, congrArg _ hl, fun i hi => hbehind i (hhead b _ i hi)⟩
    · obtain rfl := hzero a ha
      have hrest : Burst w (l.flatMap bits) := by
        refine ⟨(List.mem_append.1 hmem).resolve_left ha, s - w, fun i hi => ?_⟩
        have hi' := hs (w + i) (by rw [hshift, hi])
        omega
      obtain ⟨n, a', r, rfl, hp⟩ := ih hrest
      exact ⟨n + 1, a', r, rfl, hp⟩

end Split

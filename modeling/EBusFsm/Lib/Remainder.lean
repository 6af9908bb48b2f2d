import EBusFsm.Lib.Checksum
import Mathlib.Algebra.CharP.Two
import Mathlib.Algebra.Polynomial.Div

/-!
# Remainders of bit strings

A string of bits is a polynomial over the field of two elements, its first bit the highest coefficient
(`bitsPoly`). `divideBits p` divides by the polynomial with the coefficients `p` below the leading one as it is
done by hand: bring down the next bit, and subtract the divisor when a one leaves the register on the left. What
is left is the remainder (`poly_divideBits`). A register that takes a word at a time and makes as many steps of
the division as a word has bits leaves the same (`poly_checksum_mulX`).
-/

open Polynomial

/-! ### Bit strings as polynomials -/

/-- A bit as a coefficient. -/
def coefficient (b : Bool) : ZMod 2 := if b then 1 else 0

noncomputable def bitsPoly (l : List Bool) : (ZMod 2)[X] :=
  l.foldl (fun p b => p * X + C (coefficient b)) 0

theorem coefficient_xor (b b' : Bool) : coefficient (b ^^ b') = coefficient b + coefficient b' := by
  cases b <;> cases b' <;> rfl

@[simp] theorem bitsPoly_nil : bitsPoly [] = 0 := rfl

theorem bitsPoly_concat (l : List Bool) (b : Bool) :
    bitsPoly (l ++ [b]) = bitsPoly l * X + C (coefficient b) := by
  rw [bitsPoly, List.foldl_append]
  rfl

theorem bitsPoly_append (l r : List Bool) : bitsPoly (l ++ r) = bitsPoly l * X ^ r.length + bitsPoly r := by
  induction r using List.reverseRecOn with
  | nil => simp
  | append_singleton r b ih =>
    rw [← List.append_assoc, bitsPoly_concat, ih, bitsPoly_concat, List.length_append, List.length_singleton]
    ring

theorem bitsPoly_cons (b : Bool) (l : List Bool) :
    bitsPoly (b :: l) = C (coefficient b) * X ^ l.length + bitsPoly l := by
  have hone : bitsPoly [b] = C (coefficient b) := by
    rw [← List.nil_append [b], bitsPoly_concat, bitsPoly_nil, zero_mul, zero_add]
  rw [← List.singleton_append, bitsPoly_append, hone]

theorem bitsPoly_replicate_false (n : ℕ) : bitsPoly (List.replicate n false) = 0 := by
  induction n with
  | zero => rfl
  | succ n ih =>
    rw [List.replicate_succ, bitsPoly_cons, ih, add_zero]
    have hzero : coefficient false = 0 := rfl
    rw [hzero, C_0, zero_mul]

theorem degree_bitsPoly_lt (l : List Bool) : (bitsPoly l).degree < l.length := by
  rw [degree_lt_iff_coeff_zero]
  induction l using List.reverseRecOn with
  | nil => simp
  | append_singleton l b ih =>
    intro m hm
    rw [List.length_append, List.length_singleton] at hm
    obtain ⟨k, rfl⟩ := Nat.exists_eq_add_of_le' (le_of_add_le_right hm)
    rw [bitsPoly_concat, coeff_add, coeff_mul_X, coeff_C_succ, add_zero]
    exact ih k (Nat.le_of_succ_le_succ hm)

/-- Only zeros make the zero polynomial. -/
theorem not_mem_of_bitsPoly {l : List Bool} (h : bitsPoly l = 0) : true ∉ l := by
  induction l with
  | nil => exact List.not_mem_nil
  | cons b l ih =>
    rw [bitsPoly_cons] at h
    have hlead : coefficient b = 0 := by
      have hcoeff := congrArg (coeff · l.length) h
      have hrest := coeff_eq_zero_of_degree_lt (degree_bitsPoly_lt l)
      simpa [hrest] using hcoeff
    have hb : b = false := by
      cases b
      · rfl
      · exact absurd hlead one_ne_zero
    rw [hlead, C_0, zero_mul, zero_add] at h
    rw [hb, List.mem_cons, not_or]
    exact ⟨Bool.noConfusion, ih h⟩

theorem bitsPoly_zipWith_xor {l l' : List Bool} (h : l.length = l'.length) :
    bitsPoly (List.zipWith (· ^^ ·) l l') = bitsPoly l + bitsPoly l' := by
  induction l generalizing l' with
  | nil =>
    obtain rfl := List.length_eq_zero_iff.1 h.symm
    simp
  | cons b l ih =>
    obtain ⟨b', l', rfl⟩ := List.exists_cons_of_length_eq_add_one h.symm
    have hlen : l.length = l'.length := Nat.succ.inj h
    have hzip : (List.zipWith (· ^^ ·) l l').length = l'.length := by simp [hlen]
    rw [List.zipWith_cons_cons, bitsPoly_cons, bitsPoly_cons, bitsPoly_cons, ih hlen, hzip, hlen,
      coefficient_xor, C_add]
    ring

namespace BitWord

variable {w : ℕ}

noncomputable def poly (a : BitWord w) : (ZMod 2)[X] := bitsPoly a.toList

/-- The divisor with the coefficients `p` below the leading one. -/
noncomputable def divisor (p : BitVec w) : (ZMod 2)[X] := X ^ w + poly ⟨p⟩

theorem degree_poly_lt (a : BitWord w) : a.poly.degree < w := by
  have h := degree_bitsPoly_lt a.toList
  rwa [length_toList] at h

theorem divisor_monic (p : BitVec w) : (divisor p).Monic := monic_X_pow_add (degree_poly_lt _)

theorem degree_divisor (p : BitVec w) : (divisor p).degree = w := by
  rw [divisor, degree_add_eq_left_of_degree_lt, degree_X_pow]
  rw [degree_X_pow]
  exact degree_poly_lt _

@[simp] theorem poly_add (a b : BitWord w) : (a + b).poly = a.poly + b.poly := by
  rw [poly, toList_add, bitsPoly_zipWith_xor (by simp)]
  rfl

@[simp] theorem poly_zero : (0 : BitWord w).poly = 0 := by
  have h := poly_add (0 : BitWord w) 0
  rw [add_zero] at h
  exact left_eq_add.1 h

/-- A shift multiplies by `X`, but for the bit that leaves the word. -/
theorem poly_shiftLeft (a : BitWord w) :
    poly ⟨a.bits <<< 1⟩ + C (coefficient a.bits.msb) * X ^ w = a.poly * X := by
  cases w with
  | zero =>
    have hmsb : a.bits.msb = false := by simp [BitVec.msb]
    simp [poly, toList, hmsb, coefficient]
  | succ w =>
    let rest := List.ofFn fun i : Fin w => a.bits.getMsbD (i + 1)
    have hword : a.toList = a.bits.msb :: rest := by
      rw [toList, List.ofFn_succ]
      rfl
    have hshift : toList ⟨a.bits <<< 1⟩ = rest ++ [false] := by
      rw [toList, List.ofFn_succ', List.concat_eq_append]
      simp [rest]
    have hlen : rest.length = w := List.length_ofFn
    rw [poly, poly, hword, hshift, bitsPoly_concat, bitsPoly_cons, hlen]
    have hzero : coefficient false = 0 := rfl
    rw [hzero, C_0]
    ring

/-- One step of the division multiplies by `X`, up to a multiple of the divisor. -/
theorem divisor_dvd_mulX (p : BitVec w) (a : BitWord w) : divisor p ∣ (mulX p a).poly - a.poly * X := by
  have hstep : (mulX p a).poly = poly ⟨a.bits <<< 1⟩ + C (coefficient a.bits.msb) * poly ⟨p⟩ := by
    have hsum : mulX p a = ⟨a.bits <<< 1⟩ + if a.bits.msb then ⟨p⟩ else 0 := by
      apply BitWord.ext
      rw [bits_add, apply_ite bits]
      rfl
    rw [hsum, poly_add]
    cases a.bits.msb <;> simp [coefficient]
  refine ⟨C (coefficient a.bits.msb), ?_⟩
  rw [hstep, ← poly_shiftLeft, divisor, CharTwo.sub_eq_add]
  linear_combination CharTwo.add_self_eq_zero (poly ⟨a.bits <<< 1⟩)
/-- The remainder does not change under multiples of the divisor. -/
theorem poly_eq_mod {p : BitVec w} {a : BitWord w} {f : (ZMod 2)[X]} (h : divisor p ∣ a.poly - f) :
    a.poly = f %ₘ divisor p := by
  have hself : a.poly %ₘ divisor p = a.poly := by
    rw [modByMonic_eq_self_iff (divisor_monic p), degree_divisor]
    exact degree_poly_lt a
  rw [← hself]
  exact modByMonic_eq_of_dvd_sub (divisor_monic p) h

theorem divisor_dvd_iterate (p : BitVec w) (a : BitWord w) (k : ℕ) :
    divisor p ∣ ((mulX p)^[k] a).poly - a.poly * X ^ k := by
  induction k with
  | zero => simp
  | succ k ih =>
    rw [Function.iterate_succ_apply']
    have hstep := (divisor_dvd_mulX p ((mulX p)^[k] a)).add (ih.mul_right X)
    have hsum : (mulX p ((mulX p)^[k] a)).poly - ((mulX p)^[k] a).poly * X +
        (((mulX p)^[k] a).poly - a.poly * X ^ k) * X =
          (mulX p ((mulX p)^[k] a)).poly - a.poly * X ^ (k + 1) := by ring
    rwa [hsum] at hstep

/-! ### Bit by bit -/

/-- The word whose lowest bit is the given one, and the others zero. -/
def lowBit (b : Bool) : BitWord w := ⟨if b then 1 else 0⟩

/-- One step of the division: the register is shifted and takes the next bit; the divisor is subtracted if a one
leaves on the left. -/
def bringDown (p : BitVec w) (r : BitWord w) (b : Bool) : BitWord w := mulX p r + lowBit b

/-- The register after the division of a bit string. -/
def divideBits (p : BitVec w) (l : List Bool) : BitWord w := l.foldl (bringDown p) 0

theorem divisor_dvd_lowBit (p : BitVec w) (b : Bool) :
    divisor p ∣ (lowBit b : BitWord w).poly - C (coefficient b) := by
  cases w with
  | zero =>
    have hone : divisor p = 1 := by simp [divisor, poly, toList]
    rw [hone]
    exact one_dvd _
  | succ w =>
    have hlow : (lowBit b : BitWord (w + 1)).toList = List.replicate w false ++ [b] := by
      have hpad : (List.ofFn fun i : Fin w => decide ((i : ℕ) = w)) = List.replicate w false := by
        rw [← List.ofFn_const]
        exact congrArg List.ofFn (funext fun i => decide_eq_false i.isLt.ne)
      rw [toList, List.ofFn_succ', List.concat_eq_append]
      cases b <;> simp [lowBit, List.ofFn_const, hpad]
    rw [poly, hlow, bitsPoly_concat, bitsPoly_replicate_false, zero_mul, zero_add, sub_self]
    exact dvd_zero _

/-- **What the division leaves is the remainder.** -/
theorem poly_divideBits (p : BitVec w) (l : List Bool) :
    (divideBits p l).poly = bitsPoly l %ₘ divisor p := by
  refine poly_eq_mod ?_
  induction l using List.reverseRecOn with
  | nil => simp [divideBits]
  | append_singleton l b ih =>
    have hnext : divideBits p (l ++ [b]) = mulX p (divideBits p l) + lowBit b := by
      rw [divideBits, List.foldl_append]
      rfl
    have hdvd := ((divisor_dvd_mulX p (divideBits p l)).add (ih.mul_right X)).add (divisor_dvd_lowBit p b)
    rw [hnext, poly_add, bitsPoly_concat]
    have hsum : (mulX p (divideBits p l)).poly + (lowBit b : BitWord w).poly -
        (bitsPoly l * X + C (coefficient b)) =
          (mulX p (divideBits p l)).poly - (divideBits p l).poly * X +
            ((divideBits p l).poly - bitsPoly l) * X + ((lowBit b : BitWord w).poly - C (coefficient b)) := by
      ring
    rwa [hsum]

/-! ### Word by word -/

/-- A register that makes `w` steps of the division for every word of `w` bits holds the remainder. -/
theorem poly_checksum_mulX {p : BitVec w} {T : BitWord w →+ BitWord w} (hT : ∀ a, T a = (mulX p)^[w] a)
    (l : List (BitWord w)) : (checksum T l).poly = bitsPoly (l.flatMap toList) %ₘ divisor p := by
  refine poly_eq_mod ?_
  induction l using List.reverseRecOn with
  | nil => simp [checksum, registerAfter]
  | append_singleton l a ih =>
    have hnext : checksum T (l ++ [a]) = T (checksum T l) + a := registerAfter_append T 0 l [a]
    have hdvd := (divisor_dvd_iterate p (checksum T l) w).add (ih.mul_right (X ^ w))
    have hbits : (l ++ [a]).flatMap toList = l.flatMap toList ++ a.toList := by simp
    rw [hnext, hT, poly_add, hbits, bitsPoly_append, length_toList]
    have hsum : ((mulX p)^[w] (checksum T l)).poly + a.poly -
        (bitsPoly (l.flatMap toList) * X ^ w + bitsPoly a.toList) =
          ((mulX p)^[w] (checksum T l)).poly - (checksum T l).poly * X ^ w +
            ((checksum T l).poly - bitsPoly (l.flatMap toList)) * X ^ w := by
      rw [← poly]
      ring
    rwa [hsum]

/-- A word is determined by its polynomial. -/
theorem poly_injective : Function.Injective (poly : BitWord w → (ZMod 2)[X]) := by
  intro a b h
  have hzero : (a + b).poly = 0 := by
    rw [poly_add, h, CharTwo.add_self_eq_zero]
  have hsum : a + b = 0 := eq_zero_of_toList (not_mem_of_bitsPoly hzero)
  rw [eq_neg_of_add_eq_zero_left hsum, neg_eq]

end BitWord

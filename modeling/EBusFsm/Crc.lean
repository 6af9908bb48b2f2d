import EBusFsm.Lib.Remainder
import EBusFsm.Telegram.Parts

/-!
# The CRC

The table of `calc_crc` divides by `x^8 + x^7 + x^4 + x^3 + x + 1`: an entry is its index after eight steps of
the division (`word_table`), so `crc` is the checksum of a linear register, and what it holds at the end is the
remainder of the extended bytes (`crc_remainder`).

`crc_detects` says what the comparison with the CRC detects. The CRC byte is not pushed through the register, as
it would be in the usual scheme, so a difference that goes from the last byte over into the CRC is a case of its
own.
-/

namespace EBusFsm

open BitWord

/-! ### Bits -/

/-- The bits of a byte, the most significant one first. -/
def byteBits (b : Byte) : List Bool := List.ofFn fun i : Fin 8 => b.toBitVec.getMsbD i

/-- The exclusive or of two byte strings of the same length, as one string of bits. -/
def errorBits (l l' : List Byte) : List Bool := (List.zipWith (· ^^^ ·) l l').flatMap byteBits

/-! ### The register -/

/-- A byte as a word of bits. -/
def word (b : Byte) : BitWord 8 := ⟨b.toBitVec⟩

/-- Eight steps of the division by the polynomial. -/
def crcStep : BitWord 8 →+ BitWord 8 where
  toFun := (mulX 0x9b)^[8]
  map_zero' := iterate_map_zero _ _
  map_add' := iterate_map_add _ _

theorem word_xor (b b' : Byte) : word (b ^^^ b') = word b - word b' := by
  apply BitWord.ext
  rw [bits_sub]
  exact UInt8.toBitVec_xor b b'

theorem exists_word (a : BitWord 8) : ∃ b, word b = a := ⟨⟨a.bits⟩, rfl⟩

theorem word_table : ∀ b : Byte, word (crcTable.getD b.toNat 0) = crcStep (word b) :=
  forall_byte (by decide +kernel)

theorem word_calcCrc (byte init : Byte) : word (calcCrc byte init) = crcStep (word init) + word byte := by
  rw [calcCrc, word_xor, word_table, sub_eq_add_neg, neg_eq]

theorem word_crcLoop (l : List Byte) : word (crcLoop l) = checksum crcStep (l.map word) := by
  suffices hgeneral : ∀ crc, word (l.foldl (fun crc byte => calcCrc byte crc) crc) =
      registerAfter crcStep (word crc) (l.map word) from hgeneral seqZero
  induction l with
  | nil => exact fun crc => rfl
  | cons byte l ih =>
    intro crc
    rw [List.foldl_cons, ih, word_calcCrc]
    rfl

/-! ### The remainder -/

section Remainder

open Polynomial

theorem divisor_crc : divisor (0x9b : BitVec 8) = X ^ 8 + X ^ 7 + X ^ 4 + X ^ 3 + X + 1 := by
  have hbits : toList (⟨0x9b⟩ : BitWord 8) = [true, false, false, true, true, false, true, true] := by decide
  rw [divisor, poly, hbits]
  simp only [bitsPoly_cons, coefficient, bitsPoly_nil, List.length_cons, List.length_nil]
  simp
  ring

/-- **`crc` is the remainder of the extended bytes**, computed bit by bit from a register that is zero. -/
theorem crc_remainder (s : Sequence) :
    word s.crc.1 = divideBits 0x9b (s.extend.seq.flatMap byteBits) ∧
      bitsPoly (byteBits s.crc.1) =
        bitsPoly (s.extend.seq.flatMap byteBits) %ₘ (X ^ 8 + X ^ 7 + X ^ 4 + X ^ 3 + X + 1) := by
  have hbits : (s.extend.seq.map word).flatMap toList = s.extend.seq.flatMap byteBits := by
    rw [List.flatMap_map]
    rfl
  have hpoly : (word s.crc.1).poly = bitsPoly (s.extend.seq.flatMap byteBits) %ₘ
      divisor (0x9b : BitVec 8) := by
    rw [Sequence.crc_eq, word_crcLoop, poly_checksum_mulX (fun _ => rfl), hbits]
  refine ⟨poly_injective ?_, ?_⟩
  · rw [hpoly, poly_divideBits]
  · rw [← divisor_crc, ← hpoly]
    rfl

end Remainder

/-! ### What the CRC detects -/

theorem crcStep_injective : Function.Injective crcStep := by
  rw [injective_iff_map_eq_zero]
  intro a ha
  obtain ⟨b, rfl⟩ := exists_word a
  have hzero : ∀ b : Byte, crcStep (word b) = 0 → word b = 0 := forall_byte (by decide +kernel)
  exact hzero b ha

/-- The polynomial is divisible by `x + 1`. -/
theorem parity_crcStep (a : BitWord 8) : parity (crcStep a) = parity a := by
  obtain ⟨b, rfl⟩ := exists_word a
  have hcount : ∀ b : Byte, (crcStep (word b)).toList.count true % 2 = (word b).toList.count true % 2 :=
    forall_byte (by decide +kernel)
  exact (ZMod.natCast_eq_natCast_iff' _ _ 2).2 (hcount b)

/-- No byte is taken to one that ends before the place where the byte begins. -/
theorem crcStep_overlaps (a : BitWord 8) {p : ℕ} (hp : p < 8) (hfirst : a.toList[p]? = some true)
    (hmin : ∀ i < p, a.toList[i]? ≠ some true) : ¬ ∀ i : ℕ, (crcStep a).toList[i]? = some true → i < p := by
  obtain ⟨b, rfl⟩ := exists_word a
  have hcheck : ∀ b : Byte, ∀ p : Fin 8, (word b).toList[p.val]? = some true →
      (∀ i : Fin 8, i.val < p.val → (word b).toList[i.val]? ≠ some true) →
      ∃ i : Fin 8, (crcStep (word b)).toList[i.val]? = some true ∧ p.val ≤ i.val :=
    forall_byte (by decide +kernel)
  obtain ⟨i, hi, hle⟩ := hcheck b ⟨p, hp⟩ hfirst fun i hi => hmin i hi
  intro hall
  exact Nat.not_lt_of_le hle (hall i hi)

/-- The difference of two texts with their CRC bytes. -/
theorem errorBits_append {b b' : List Byte} (hlen : b'.length = b.length) (c c' : Byte) :
    errorBits (b ++ [c]) (b' ++ [c']) =
      (List.zipWith (· - ·) (b.map word) (b'.map word) ++ [word c - word c']).flatMap toList := by
  have hwords : ∀ l l' : List Byte, (List.zipWith (· ^^^ ·) l l').map word =
      List.zipWith (· - ·) (l.map word) (l'.map word) := fun l l' => by
    rw [List.map_zipWith, List.zipWith_map]
    exact congrArg (fun f => List.zipWith f l l') (funext₂ word_xor)
  have hbits : ∀ l : List Byte, l.flatMap byteBits = (l.map word).flatMap toList := fun l => by
    rw [List.flatMap_map]
    rfl
  rw [errorBits, hbits, hwords, List.map_append, List.map_append, List.zipWith_append (by simp [hlen])]
  rfl

/-- **The CRC detects every difference of odd weight and every burst of at most eight bits**, anywhere in the
bytes and the CRC behind them. -/
theorem crc_detects {b b' : List Byte} {c c' : Byte} (hc : (Sequence.crc ⟨b, true⟩).1 = c)
    (hlen : b'.length = b.length)
    (herror : Odd ((errorBits (b ++ [c]) (b' ++ [c'])).count true) ∨
      Burst 8 (errorBits (b ++ [c]) (b' ++ [c']))) : (Sequence.crc ⟨b', true⟩).1 ≠ c' := by
  intro hc'
  have hsent : checksum crcStep (b.map word) = word c := by
    rw [← word_crcLoop]
    exact congrArg word hc
  have hmissed : checksum crcStep (List.zipWith (· - ·) (b.map word) (b'.map word)) = word c - word c' := by
    rw [← hsent, ← checksum_eq_iff crcStep (by simp [hlen]), ← word_crcLoop]
    exact congrArg word hc'
  rw [errorBits_append hlen] at herror
  rcases herror with hodd | hburst
  · exact Nat.not_even_iff_odd.2 hodd (even_of_missed parity_crcStep hmissed)
  · obtain ⟨n, a, r, he, p, hp, hfirst, hmin, hr⟩ :=
      burst_split length_toList (fun a => eq_zero_of_toList) hburst
    have ha : a ≠ 0 := by
      rintro rfl
      exact not_mem_toList_zero (List.mem_of_getElem? hfirst)
    have hshape : r = [] ∨ ∃ b k, r = b :: List.replicate k 0 :=
      hr.imp_right fun ⟨b, k, hbk, _⟩ => ⟨b, k, hbk⟩
    obtain ⟨d, hd, hcases⟩ := burst_undetected crcStep crcStep_injective he ha hshape hmissed
    obtain ⟨k, hbound⟩ : ∃ k, r = d :: List.replicate k 0 ∧ ∀ i : ℕ, d.toList[i]? = some true → i < p := by
      rcases hr with rfl | ⟨d', k, rfl, hbound⟩
      · exact nomatch hd
      · obtain rfl := Option.some_inj.1 hd
        exact ⟨k, rfl, hbound⟩
    rcases hcases with rfl | hsum
    · exact Nat.lt_irrefl p (hbound.2 p hfirst)
    · obtain rfl : crcStep a = d := by
        rw [eq_neg_of_add_eq_zero_left hsum, neg_eq]
      exact crcStep_overlaps a hp hfirst hmin hbound.2

/-- The master part `ff08b5050127` has the CRC `a8`; four flipped bits, two of them in the CRC, are detected. -/
theorem crc_detects_sample :
    (Sequence.crc ⟨[0xff, 0x08, 0xb5, 0x05, 0x01, 0x24], true⟩).1 ≠ 0x68 := by
  let sent : List Byte := [0xff, 0x08, 0xb5, 0x05, 0x01, 0x27]
  let error := errorBits (sent ++ [0xa8]) ([0xff, 0x08, 0xb5, 0x05, 0x01, 0x24] ++ [0x68])
  have hlen : error.length = 56 := by decide
  have hplaces : ∀ i : Fin 56, error[i.val]? = some true → 46 ≤ i.val ∧ i.val < 46 + 8 := by decide +kernel
  have hburst : Burst 8 error := by
    refine ⟨by decide, 46, fun i hi => ?_⟩
    have hi' := (List.getElem?_eq_some_iff.1 hi).1
    exact hplaces ⟨i, hlen ▸ hi'⟩ hi
  exact crc_detects (show (Sequence.crc ⟨sent, true⟩).1 = 0xa8 by decide) rfl (.inr hburst)

end EBusFsm

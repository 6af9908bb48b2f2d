import EBusFsm.Lib.Stuffing

/-!
# Byte sequences

`Sequence` is the class of `Sequence.cpp`: the bytes of a telegram and the flag that says whether
they are in the extended (escaped) form of the wire. `extend`, `reduce` and `crc` are the loops of
the source; `extend_eq_stuff` and `reduce_eq_unstuff` identify the first two with the escape code of
the bus. `crc` extends the sequence it is called on and does not reduce it again, because it reads
the flag after `extend` has set it; `crc_snd` states this.
-/

namespace EBusFsm

abbrev Byte := UInt8

/-- `std::out_of_range`, which `std::vector::at` throws. -/
inductive OutOfRange
  | outOfRange
  deriving DecidableEq, Repr

def seqZero : Byte := 0x00
def seqSyn : Byte := 0xaa
def seqExp : Byte := 0xa9
def seqSynexp : Byte := 0x01
def seqExpexp : Byte := 0x00

structure Sequence where
  seq : List Byte := []
  extended : Bool := false
  deriving DecidableEq, Repr

/-- The table of the polynomial `0x9b`. -/
def crcTable : List Byte :=
  [ 0x00, 0x9b, 0xad, 0x36, 0xc1, 0x5a, 0x6c, 0xf7, 0x19, 0x82, 0xb4, 0x2f, 0xd8, 0x43, 0x75, 0xee,
    0x32, 0xa9, 0x9f, 0x04, 0xf3, 0x68, 0x5e, 0xc5, 0x2b, 0xb0, 0x86, 0x1d, 0xea, 0x71, 0x47, 0xdc,
    0x64, 0xff, 0xc9, 0x52, 0xa5, 0x3e, 0x08, 0x93, 0x7d, 0xe6, 0xd0, 0x4b, 0xbc, 0x27, 0x11, 0x8a,
    0x56, 0xcd, 0xfb, 0x60, 0x97, 0x0c, 0x3a, 0xa1, 0x4f, 0xd4, 0xe2, 0x79, 0x8e, 0x15, 0x23, 0xb8,
    0xc8, 0x53, 0x65, 0xfe, 0x09, 0x92, 0xa4, 0x3f, 0xd1, 0x4a, 0x7c, 0xe7, 0x10, 0x8b, 0xbd, 0x26,
    0xfa, 0x61, 0x57, 0xcc, 0x3b, 0xa0, 0x96, 0x0d, 0xe3, 0x78, 0x4e, 0xd5, 0x22, 0xb9, 0x8f, 0x14,
    0xac, 0x37, 0x01, 0x9a, 0x6d, 0xf6, 0xc0, 0x5b, 0xb5, 0x2e, 0x18, 0x83, 0x74, 0xef, 0xd9, 0x42,
    0x9e, 0x05, 0x33, 0xa8, 0x5f, 0xc4, 0xf2, 0x69, 0x87, 0x1c, 0x2a, 0xb1, 0x46, 0xdd, 0xeb, 0x70,
    0x0b, 0x90, 0xa6, 0x3d, 0xca, 0x51, 0x67, 0xfc, 0x12, 0x89, 0xbf, 0x24, 0xd3, 0x48, 0x7e, 0xe5,
    0x39, 0xa2, 0x94, 0x0f, 0xf8, 0x63, 0x55, 0xce, 0x20, 0xbb, 0x8d, 0x16, 0xe1, 0x7a, 0x4c, 0xd7,
    0x6f, 0xf4, 0xc2, 0x59, 0xae, 0x35, 0x03, 0x98, 0x76, 0xed, 0xdb, 0x40, 0xb7, 0x2c, 0x1a, 0x81,
    0x5d, 0xc6, 0xf0, 0x6b, 0x9c, 0x07, 0x31, 0xaa, 0x44, 0xdf, 0xe9, 0x72, 0x85, 0x1e, 0x28, 0xb3,
    0xc3, 0x58, 0x6e, 0xf5, 0x02, 0x99, 0xaf, 0x34, 0xda, 0x41, 0x77, 0xec, 0x1b, 0x80, 0xb6, 0x2d,
    0xf1, 0x6a, 0x5c, 0xc7, 0x30, 0xab, 0x9d, 0x06, 0xe8, 0x73, 0x45, 0xde, 0x29, 0xb2, 0x84, 0x1f,
    0xa7, 0x3c, 0x0a, 0x91, 0x66, 0xfd, 0xcb, 0x50, 0xbe, 0x25, 0x13, 0x88, 0x7f, 0xe4, 0xd2, 0x49,
    0x95, 0x0e, 0x38, 0xa3, 0x54, 0xcf, 0xf9, 0x62, 0x8c, 0x17, 0x21, 0xba, 0x4d, 0xd6, 0xe0, 0x7b ]

def calcCrc (byte init : Byte) : Byte := crcTable.getD init.toNat 0 ^^^ byte

/-- The loop of `crc`. -/
def crcLoop (bytes : List Byte) : Byte := bytes.foldl (fun crc byte => calcCrc byte crc) seqZero

/-- The loop of `extend`. -/
def extendBytes : List Byte → List Byte
  | [] => []
  | byte :: bytes =>
    if byte = seqSyn then seqExp :: seqSynexp :: extendBytes bytes
    else if byte = seqExp then seqExp :: seqExpexp :: extendBytes bytes
    else byte :: extendBytes bytes

/-- The loop of `reduce`, with its local flag `extended`. -/
def reduceLoop : Bool → List Byte → List Byte
  | _, [] => []
  | extended, byte :: bytes =>
    if byte = seqSyn ∨ byte = seqExp then reduceLoop true bytes
    else if extended then (if byte = seqSynexp then seqSyn else seqExp) :: reduceLoop false bytes
    else byte :: reduceLoop false bytes

def reduceBytes (bytes : List Byte) : List Byte := reduceLoop false bytes

namespace Sequence

def size (s : Sequence) : Nat := s.seq.length

def pushBack (s : Sequence) (byte : Byte) (extended : Bool := true) : Sequence :=
  { seq := s.seq ++ [byte], extended }

/-- `operator[]`. -/
def byteAt (s : Sequence) (index : Nat) : Except OutOfRange Byte :=
  match s.seq[index]? with
  | some byte => .ok byte
  | none => .error .outOfRange

/-- The constructor that copies a part. The source computes `size - index` and `index + len` modulo
the width of `size_t`, so with `len = 0` its loop stops at `size` even if `index` lies behind it. -/
def slice (s : Sequence) (index : Nat) (len : Nat := 0) : Except OutOfRange Sequence := do
  let stop := if len = 0 then s.size else index + len
  let bytes ← (List.range' index (stop - index)).mapM s.byteAt
  return { seq := bytes, extended := s.extended }

/-- The same constructor in the arithmetic of a `size_t` of `w` bits, step by step as in the source. -/
def sliceMod (w : Nat) (s : Sequence) (index len : Nat) : Except OutOfRange Sequence := do
  let len := if len = 0 then (s.size + 2 ^ w - index) % 2 ^ w else len
  let stop := (index + len) % 2 ^ w
  let bytes ← (List.range' index (stop - index)).mapM s.byteAt
  return { seq := bytes, extended := s.extended }

def extend (s : Sequence) : Sequence :=
  if s.extended then s else { seq := extendBytes s.seq, extended := true }

def reduce (s : Sequence) : Sequence :=
  if !s.extended then s else { seq := reduceBytes s.seq, extended := false }

/-- The value of `crc` and the sequence as the call leaves it. -/
def crc (s : Sequence) : Byte × Sequence :=
  let s := if !s.extended then s.extend else s
  let crc := crcLoop s.seq
  let s := if !s.extended then s.reduce else s
  (crc, s)

end Sequence

@[simp] theorem ok_bind {ε α β : Type} (a : α) (f : α → Except ε β) :
    (Except.ok a >>= f) = f a := rfl

/-! ### The escape code of the bus -/

def ebusCode : EscapeCode Byte where
  flag := seqSyn
  esc := seqExp
  flagCode := seqSynexp
  escCode := seqExpexp
  flag_ne_esc := by decide
  codes_ne := by decide
  flagCode_ne_flag := by decide
  flagCode_ne_esc := by decide
  escCode_ne_flag := by decide
  escCode_ne_esc := by decide

theorem extendBytes_eq_stuff (l : List Byte) : extendBytes l = ebusCode.stuff l := by
  induction l with
  | nil => rfl
  | cons b l ih =>
    rw [extendBytes, EscapeCode.stuff, ih]
    rfl

theorem reduceLoop_eq_unstuffFrom (p : Bool) (l : List Byte) :
    reduceLoop p l = ebusCode.unstuffFrom p l := by
  induction l generalizing p with
  | nil => cases p <;> rfl
  | cons b l ih =>
    rw [reduceLoop, EscapeCode.unstuffFrom, ih, ih]
    rfl

theorem reduceBytes_eq_unstuff (l : List Byte) : reduceBytes l = ebusCode.unstuff l :=
  reduceLoop_eq_unstuffFrom false l

/-- Neither the synchronization byte nor the expand byte occurs. -/
def Plain (l : List Byte) : Prop := ebusCode.Plain l

instance (l : List Byte) : Decidable (Plain l) := inferInstanceAs (Decidable (ebusCode.Plain l))

@[simp] theorem plain_nil : Plain [] := ebusCode.plain_nil

@[simp] theorem plain_cons (b : Byte) (l : List Byte) :
    Plain (b :: l) ↔ (b ≠ seqSyn ∧ b ≠ seqExp) ∧ Plain l := by
  rw [Plain, EscapeCode.plain_cons, EscapeCode.Reserved, not_or]
  rfl

@[simp] theorem plain_append (l r : List Byte) : Plain (l ++ r) ↔ Plain l ∧ Plain r :=
  ebusCode.plain_append l r

theorem extendBytes_append (l r : List Byte) :
    extendBytes (l ++ r) = extendBytes l ++ extendBytes r := by
  simp only [extendBytes_eq_stuff, EscapeCode.stuff_append]

theorem extendBytes_eq_self_iff (l : List Byte) : extendBytes l = l ↔ Plain l := by
  rw [extendBytes_eq_stuff, EscapeCode.stuff_eq_self_iff, Plain]

@[simp] theorem reduceBytes_extendBytes (l : List Byte) : reduceBytes (extendBytes l) = l := by
  rw [reduceBytes_eq_unstuff, extendBytes_eq_stuff, EscapeCode.unstuff_stuff]

theorem reduceBytes_extendBytes_append (l r : List Byte) :
    reduceBytes (extendBytes l ++ r) = l ++ reduceBytes r := by
  rw [reduceBytes_eq_unstuff, extendBytes_eq_stuff, EscapeCode.unstuff_stuff_append,
    reduceBytes_eq_unstuff]

theorem reduceBytes_of_plain {l : List Byte} (h : Plain l) : reduceBytes l = l := by
  rw [reduceBytes_eq_unstuff]
  exact ebusCode.unstuffFrom_of_plain h

/-! ### The operations -/

namespace Sequence

@[simp] theorem byteAt_mk (l : List Byte) (e : Bool) (b : Byte) (i : Nat) (h : l[i]? = some b) :
    byteAt ⟨l, e⟩ i = .ok b := by
  simp [byteAt, h]

theorem byteAt_append_cons (l r : List Byte) (b : Byte) (e : Bool) (i : Nat) (h : i = l.length) :
    byteAt ⟨l ++ b :: r, e⟩ i = .ok b :=
  byteAt_mk _ _ _ _ (by subst h; simp)

theorem mapM_byteAt (s : Sequence) (i n : Nat) (h : i + n ≤ s.size) :
    (List.range' i n).mapM s.byteAt = .ok ((s.seq.drop i).take n) := by
  induction n generalizing i with
  | zero => rfl
  | succ n ih =>
    have hi : i < s.seq.length := by
      rw [size] at h
      omega
    have hb : s.byteAt i = .ok s.seq[i] := byteAt_mk _ _ _ _ (by simp [hi])
    rw [List.range'_succ, List.mapM_cons, hb, ih (i + 1) (by omega), List.drop_eq_getElem_cons hi,
      List.take_succ_cons]
    rfl

/-- A slice of known length. -/
theorem slice_eq (s : Sequence) (i n : Nat) (hn : n ≠ 0) (h : i + n ≤ s.size) :
    s.slice i n = .ok ⟨(s.seq.drop i).take n, s.extended⟩ := by
  rw [slice]
  simp only [if_neg hn, Nat.add_sub_cancel_left]
  rw [mapM_byteAt s i n h]
  rfl

/-- A slice to the end. -/
theorem slice_zero (s : Sequence) (i : Nat) : s.slice i = .ok ⟨s.seq.drop i, s.extended⟩ := by
  rw [slice]
  simp only [if_true]
  by_cases h : i ≤ s.size
  · rw [mapM_byteAt s i _ (by omega), List.take_of_length_le (by simp [size])]
    rfl
  · have hd : s.seq.drop i = [] := List.drop_eq_nil_of_le (by rw [size] at h; omega)
    rw [show s.size - i = 0 by omega, hd]
    rfl

/-- A slice that starts where the second half of the bytes starts. -/
theorem slice_append (l r : List Byte) (e : Bool) (n : Nat) (hn : n ≠ 0) (h : n ≤ r.length) :
    slice ⟨l ++ r, e⟩ l.length n = .ok ⟨r.take n, e⟩ := by
  rw [slice_eq _ _ _ hn (by simp only [size, List.length_append]; omega)]
  simp

theorem slice_append_zero (l r : List Byte) (e : Bool) :
    slice ⟨l ++ r, e⟩ l.length = .ok ⟨r, e⟩ := by
  rw [slice_zero]
  simp

/-- The subtraction may wrap around; the sum of it and the index is the size again. -/
theorem sliceMod_eq {w index len : Nat} {s : Sequence} (hsize : s.size < 2 ^ w)
    (hindex : index + len < 2 ^ w) : s.sliceMod w index len = s.slice index len := by
  rw [sliceMod, slice]
  by_cases hlen : len = 0
  · have hstop : (index + (s.size + 2 ^ w - index) % 2 ^ w) % 2 ^ w = s.size := by
      rw [Nat.add_mod_mod, Nat.add_sub_of_le (by omega), Nat.add_mod_right, Nat.mod_eq_of_lt hsize]
    simp only [if_pos hlen, hstop]
  · simp only [if_neg hlen, Nat.mod_eq_of_lt hindex]

@[simp] theorem reduce_reduced (l : List Byte) : reduce ⟨l, false⟩ = ⟨l, false⟩ := rfl

@[simp] theorem reduce_extended (l : List Byte) : reduce ⟨l, true⟩ = ⟨reduceBytes l, false⟩ := rfl

@[simp] theorem extend_reduced (l : List Byte) : extend ⟨l, false⟩ = ⟨extendBytes l, true⟩ := rfl

@[simp] theorem extend_extended (l : List Byte) : extend ⟨l, true⟩ = ⟨l, true⟩ := rfl

@[simp] theorem reduce_flag (s : Sequence) : s.reduce.extended = false := by
  rcases s with ⟨l, _ | _⟩ <;> rfl

theorem reduce_eq (s : Sequence) : s.reduce = ⟨s.reduce.seq, false⟩ := by
  rcases s with ⟨l, _ | _⟩ <;> rfl

theorem crc_eq (s : Sequence) : s.crc = (crcLoop s.extend.seq, s.extend) := by
  rcases s with ⟨l, _ | _⟩ <;> rfl

/-- `crc` leaves the sequence extended. -/
theorem crc_snd (s : Sequence) : s.crc.2 = s.extend := by
  rw [crc_eq]

theorem pushBack_seq (s : Sequence) (b : Byte) (e : Bool) : (s.pushBack b e).seq = s.seq ++ [b] :=
  rfl

/-! ### Escaping -/

/-- No synchronization byte occurs, and each expand byte is followed by a code byte. -/
def Escaped (l : List Byte) : Prop :=
  seqSyn ∉ l ∧ ∀ i, l[i]? = some seqExp → l[i + 1]? = some seqExpexp ∨ l[i + 1]? = some seqSynexp

theorem escaped_iff_canonical (l : List Byte) : Escaped l ↔ ebusCode.Canonical l := by
  rw [EscapeCode.canonical_iff]
  exact and_congr_right fun _ => forall_congr' fun _ => imp_congr_right fun _ => or_comm

theorem escaped_extend (l : List Byte) : Escaped (extendBytes l) := by
  rw [escaped_iff_canonical, extendBytes_eq_stuff]
  exact ebusCode.canonical_stuff l

theorem extendBytes_reduceBytes {l : List Byte} (h : Escaped l) : extendBytes (reduceBytes l) = l := by
  rw [extendBytes_eq_stuff, reduceBytes_eq_unstuff]
  exact ebusCode.stuff_unstuff l ((escaped_iff_canonical l).1 h)

/-- **Escaping is lossless**: `extend` takes the reduced sequences to the extended ones that are well formed,
and `reduce` takes these back. -/
theorem extend_reduce_inverse :
    (∀ s : Sequence, s.extended = false →
      s.extend.extended = true ∧ Escaped s.extend.seq ∧ s.extend.reduce = s) ∧
    (∀ t : Sequence, t.extended = true → Escaped t.seq → t.reduce.extended = false ∧ t.reduce.extend = t) ∧
    Set.InvOn reduce extend { s | s.extended = false } { t | t.extended = true ∧ Escaped t.seq } ∧
    Set.BijOn extend { s | s.extended = false } { t | t.extended = true ∧ Escaped t.seq } := by
  have hforth : ∀ s : Sequence, s.extended = false →
      s.extend.extended = true ∧ Escaped s.extend.seq ∧ s.extend.reduce = s := by
    rintro ⟨l, _⟩ rfl
    refine ⟨rfl, escaped_extend l, ?_⟩
    rw [extend_reduced, reduce_extended, reduceBytes_extendBytes]
  have hback : ∀ t : Sequence, t.extended = true → Escaped t.seq →
      t.reduce.extended = false ∧ t.reduce.extend = t := by
    rintro ⟨l, _⟩ rfl h
    refine ⟨rfl, ?_⟩
    rw [reduce_extended, extend_reduced, extendBytes_reduceBytes h]
  have hinv : Set.InvOn reduce extend { s | s.extended = false } { t | t.extended = true ∧ Escaped t.seq } :=
    ⟨fun s hs => (hforth s hs).2.2, fun t ht => (hback t ht.1 ht.2).2⟩
  refine ⟨hforth, hback, hinv, hinv.bijOn (fun s hs => ?_) fun t ht => (hback t ht.1 ht.2).1⟩
  exact ⟨(hforth s hs).1, (hforth s hs).2.1⟩

/-! ### Calls of `crc` -/

/-- The sequence after `n` calls of `crc`. -/
def afterCrc (s : Sequence) (n : Nat) : Sequence := (fun s => s.crc.2)^[n] s

/-- However often `crc` is called, it leaves the bytes and the flag as they are, and its value is that of any
call on the extended form. -/
structure CrcObserver (s : Sequence) : Prop where
  seq : ∀ n, (s.afterCrc n).seq = s.seq
  extended : ∀ n, (s.afterCrc n).extended = s.extended
  value : ∀ n k, (s.afterCrc n).crc.1 = (s.extend.afterCrc k).crc.1

@[simp] theorem extend_flag (s : Sequence) : s.extend.extended = true := by
  rcases s with ⟨l, _ | _⟩ <;> rfl

theorem extend_of_extended {s : Sequence} (h : s.extended = true) : s.extend = s := if_pos h

@[simp] theorem extend_extend (s : Sequence) : s.extend.extend = s.extend :=
  extend_of_extended s.extend_flag

/-- The first call extends the sequence, the others leave it as it is. -/
theorem afterCrc_succ (s : Sequence) (n : Nat) : s.afterCrc (n + 1) = s.extend := by
  induction n with
  | zero => exact s.crc_snd
  | succ n ih =>
    have hnext : s.afterCrc (n + 2) = (s.afterCrc (n + 1)).crc.2 := Function.iterate_succ_apply' _ _ _
    rw [hnext, ih, crc_snd, extend_extend]

theorem afterCrc_extended {s : Sequence} (h : s.extended = true) (n : Nat) : s.afterCrc n = s := by
  cases n with
  | zero => rfl
  | succ n => rw [afterCrc_succ, extend_of_extended h]

/-- What a call leaves has the same extended form. -/
theorem extend_afterCrc (s : Sequence) (n : Nat) : (s.afterCrc n).extend = s.extend := by
  cases n with
  | zero => rfl
  | succ n => rw [afterCrc_succ, extend_extend]

/-- The value does not depend on the representation, nor on the number of calls before. -/
theorem crc_afterCrc (s : Sequence) (n k : Nat) : (s.afterCrc n).crc.1 = (s.extend.afterCrc k).crc.1 := by
  have hleft : (s.afterCrc n).crc.1 = crcLoop s.extend.seq := by
    rw [crc_eq, extend_afterCrc]
  have hright : (s.extend.afterCrc k).crc.1 = crcLoop s.extend.seq := by
    rw [crc_eq, extend_afterCrc, extend_extend]
  rw [hleft, hright]

/-- **`crc` is an observer exactly on extended sequences.** Its value is the same for both forms and in every
call, but it leaves a reduced sequence extended. -/
theorem crcObserver_iff (s : Sequence) :
    (s.CrcObserver ↔ s.extended = true) ∧
      ∀ n k, (s.afterCrc n).crc.1 = (s.extend.afterCrc k).crc.1 := by
  refine ⟨⟨fun h => ?_, fun hext => ?_⟩, s.crc_afterCrc⟩
  · have hflag := h.extended 1
    rw [afterCrc_succ, extend_flag] at hflag
    exact hflag.symm
  · have hsame := afterCrc_extended hext
    refine ⟨fun n => ?_, fun n => ?_, s.crc_afterCrc⟩
    · rw [hsame]
    · rw [hsame]

/-- The reduced sequence `10 aa` is `10 a9 01`, extended, after one call. -/
theorem crcObserver_reduced_sample :
    (afterCrc ⟨[0x10, 0xaa], false⟩ 1 = ⟨[0x10, 0xa9, 0x01], true⟩) ∧ ¬ CrcObserver ⟨[0x10, 0xaa], false⟩ := by
  refine ⟨by decide, fun h => ?_⟩
  have hseq := h.seq 1
  exact absurd hseq (by decide)

end Sequence

end EBusFsm

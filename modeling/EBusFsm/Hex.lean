import EBusFsm.Lib.Pairs
import EBusFsm.Telegram.Parts

/-!
# Bytes as text

`Ebus::to_string` and `Ebus::to_vector` between byte vectors and their hexadecimal text. Of the standard library
they use the insertion of an unsigned number with `std::hex`, `std::setw` and `std::setfill`, and `strtoul` with
the base 16; both are modelled as the standard describes them, for an `unsigned long` of 64 bits. A `char` is
the character that it encodes.
-/

namespace EBusFsm

/-! ### The standard library -/

/-- `isspace` in the C locale. -/
def isSpace (c : Char) : Bool := c = ' ' || '\t' ≤ c && c ≤ '\r'

/-- The value of a hexadecimal digit. -/
def digitValue (c : Char) : Option Nat :=
  if '0' ≤ c ∧ c ≤ '9' then some (c.toNat - '0'.toNat)
  else if 'a' ≤ c ∧ c ≤ 'f' then some (c.toNat - 'a'.toNat + 10)
  else if 'A' ≤ c ∧ c ≤ 'F' then some (c.toNat - 'A'.toNat + 10)
  else none

/-- The value of the digits at the beginning of the text, behind others with the value `value`. -/
def digitsValue (value : Nat) : List Char → Nat
  | [] => value
  | c :: str =>
    match digitValue c with
    | some digit => digitsValue (16 * value + digit) str
    | none => value

/-- Leaves out `0x` or `0X` in front of a digit. -/
def skipPrefix (str : List Char) : List Char :=
  match str with
  | '0' :: x :: c :: rest => if (x = 'x' ∨ x = 'X') ∧ (digitValue c).isSome then c :: rest else str
  | _ => str

/-- `std::strtoul(str, nullptr, 16)`. -/
def strtoul (str : List Char) : Nat :=
  let str := str.dropWhile isSpace
  let (negative, str) :=
    match str with
    | '-' :: rest => (true, rest)
    | '+' :: rest => (false, rest)
    | _ => (false, str)
  let value := digitsValue 0 (skipPrefix str)
  if value ≥ 2 ^ 64 then 2 ^ 64 - 1
  else if negative then (2 ^ 64 - value) % 2 ^ 64
  else value

/-- What `ostr << std::nouppercase << std::hex << std::setw(2) << std::setfill('0')` writes of a byte. -/
def hexByte (byte : Byte) : List Char := (Nat.toDigits 16 byte.toNat).leftpad 2 '0'

/-! ### The conversions -/

namespace Ebus

/-- The loop of `to_vector`, which takes two characters as long as there are two. -/
def toVector : List Char → List Byte
  | c :: c' :: str => UInt8.ofNat (strtoul [c, c']) :: toVector str
  | _ => []

def toString (vec : List Byte) : List Char := vec.flatMap hexByte

/-! ### The round trips -/

/-- The hexadecimal digits of both cases. -/
def hexDigits : List Char := "0123456789abcdefABCDEF".toList

/-- A byte and its two digits. -/
def hexCode : PairCode Byte Char where
  digits := hexByte
  value str := UInt8.ofNat (strtoul str)
  length_digits := forall_byte (by decide +kernel)
  value_digits := forall_byte (by decide +kernel)

theorem toVector_eq_read (str : List Char) : toVector str = hexCode.read str := by
  induction str using List.twoStepInduction with
  | nil => simp [toVector, PairCode.read]
  | singleton c => simp [toVector, PairCode.read]
  | cons_cons c c' str ih _ =>
    rw [toVector, PairCode.read, ih]
    rfl

/-- What is read from two digits is written in lower case. -/
theorem hexByte_strtoul {c c' : Char} (hc : c ∈ hexDigits) (hc' : c' ∈ hexDigits) :
    hexByte (UInt8.ofNat (strtoul [c, c'])) = [c.toLower, c'.toLower] := by
  have hall : hexDigits.all (fun c => hexDigits.all fun c' =>
      hexByte (UInt8.ofNat (strtoul [c, c'])) = [c.toLower, c'.toLower]) = true := by decide +kernel
  have hdigits := List.all_eq_true.1 (List.all_eq_true.1 hall c hc) c' hc'
  exact of_decide_eq_true hdigits

/-- **The hexadecimal conversions are inverse to each other**, up to the case of the digits and an unpaired last
digit. -/
theorem toVector_toString :
    (∀ v : List Byte, toVector (toString v) = v) ∧
    (∀ s : List Char, (∀ c ∈ s, c ∈ hexDigits) →
      toString (toVector s) = (s.take (2 * (s.length / 2))).map Char.toLower) := by
  refine ⟨fun v => ?_, fun s hs => ?_⟩
  · rw [toVector_eq_read]
    exact hexCode.read_write v
  · rw [toVector_eq_read]
    exact hexCode.write_read (fun c c' hc hc' => hexByte_strtoul hc hc') hs

end Ebus

end EBusFsm

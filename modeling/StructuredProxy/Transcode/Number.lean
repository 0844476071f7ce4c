import StructuredProxy.Transcode.Text
import Mathlib.Algebra.Ring.Nat

/-!
# Reading numbers

`str::parse::<u64>`: decimal digits, with one plus sign allowed before them, whose value fits. What
`to_string` writes is read back.
-/

namespace StructuredProxy

def plus : UInt8 := 43

def isDigit (byte : UInt8) : Bool := 48 ≤ byte && byte ≤ 57

/-- What follows one White_Space character at the start of a text in UTF-8. -/
def afterSpace : Text → Option Text
  | 0xC2 :: byte :: rest => if byte = 0x85 || byte = 0xA0 then some rest else none
  | 0xE1 :: 0x9A :: 0x80 :: rest => some rest
  | 0xE2 :: 0x80 :: byte :: rest =>
      if (0x80 ≤ byte && byte ≤ 0x8A) || byte = 0xA8 || byte = 0xA9 || byte = 0xAF then some rest
      else none
  | 0xE2 :: 0x81 :: 0x9F :: rest => some rest
  | 0xE3 :: 0x80 :: 0x80 :: rest => some rest
  | byte :: rest => if (9 ≤ byte && byte ≤ 13) || byte = 32 then some rest else none
  | [] => none

def beforeSpace : Text → Option Text
  | byte :: 0xC2 :: rest => if byte = 0x85 || byte = 0xA0 then some rest else none
  | 0x80 :: 0x9A :: 0xE1 :: rest => some rest
  | byte :: 0x80 :: 0xE2 :: rest =>
      if (0x80 ≤ byte && byte ≤ 0x8A) || byte = 0xA8 || byte = 0xA9 || byte = 0xAF then some rest
      else none
  | 0x9F :: 0x81 :: 0xE2 :: rest => some rest
  | 0x80 :: 0x80 :: 0xE3 :: rest => some rest
  | byte :: rest => if (9 ≤ byte && byte ≤ 13) || byte = 32 then some rest else none
  | [] => none

def dropSpaces (next : Text → Option Text) : Nat → Text → Text
  | 0, text => text
  | fuel + 1, text =>
      match next text with
      | some rest => dropSpaces next fuel rest
      | none => text

/-- `str::trim`. -/
def strTrim (text : Text) : Text :=
  let start := dropSpaces afterSpace text.length text
  (dropSpaces beforeSpace start.length start.reverse).reverse

def digitsValue (digits : Text) : Nat :=
  digits.foldl (fun value digit => value * 10 + (digit - 48).toNat) 0

def unsigned (text : Text) : Text :=
  match text with
  | [] => []
  | first :: rest => if first = plus then rest else text

def parseU64 (text : Text) : Option Nat :=
  let digits := unsigned text
  if digits.isEmpty || !digits.all isDigit then none
  else
    let value := digitsValue digits
    if value < 2 ^ 64 then some value else none

theorem isDigit_iff {byte : UInt8} : isDigit byte = true ↔ 48 ≤ byte ∧ byte ≤ 57 := by
  rw [isDigit, Bool.and_eq_true, decide_eq_true_eq, decide_eq_true_eq]

theorem unsigned_of_digits {text : Text} (h : ∀ byte ∈ text, isDigit byte = true) :
    unsigned text = text := by
  cases text with
  | nil => rfl
  | cons first rest =>
      refine if_neg fun hplus => ?_
      have hdigit := h first List.mem_cons_self
      rw [hplus] at hdigit
      exact absurd hdigit (by decide)

theorem parseU64_of_digits {text : Text} (hne : text ≠ []) (h : ∀ byte ∈ text, isDigit byte = true) :
    parseU64 text = if digitsValue text < 2 ^ 64 then some (digitsValue text) else none := by
  have hall : text.all isDigit = true := List.all_eq_true.mpr h
  have hempty : text.isEmpty = false := List.isEmpty_eq_false_iff.mpr hne
  simp only [parseU64, unsigned_of_digits h, hall, hempty, Bool.not_true, Bool.or_self,
    Bool.false_eq_true, if_false]

theorem toNat_digit {digit : Char} (h : digit.isDigit = true) :
    (digit.val.toUInt8 - 48).toNat = digit.toNat - '0'.toNat := by
  rw [Char.isDigit, Bool.and_eq_true, decide_eq_true_eq, decide_eq_true_eq] at h
  have hlow : 48 ≤ digit.toNat := h.1
  have hhigh : digit.toNat ≤ 57 := h.2
  have hbyte : digit.val.toUInt8.toNat = digit.toNat := by
    rw [UInt32.toNat_toUInt8]
    exact Nat.mod_eq_of_lt (by change digit.toNat < _; omega)
  rw [UInt8.toNat_sub_of_le _ _ (UInt8.le_iff_toNat_le.mpr (by rw [hbyte]; exact hlow)), hbyte]
  rfl

theorem foldl_digits (digits : List Char) : (∀ digit ∈ digits, digit.isDigit = true) → ∀ value : Nat,
    (digits.map fun digit => digit.val.toUInt8).foldl
        (fun value digit => value * 10 + (digit - 48).toNat) value =
      Nat.ofDigitChars 10 digits value := by
  induction digits with
  | nil => intro _ value; rfl
  | cons digit digits ih =>
      intro hdigits value
      have hrest := ih fun other hother => hdigits other (List.mem_cons_of_mem _ hother)
      rw [List.map_cons, List.foldl_cons, hrest, toNat_digit (hdigits digit List.mem_cons_self),
        Nat.mul_comm]
      rfl

theorem digitsValue_decimal (n : Nat) : digitsValue (decimal n) = n := by
  have hdigits : ∀ digit ∈ Nat.toDigits 10 n, digit.isDigit = true := fun digit hdigit =>
    Nat.isDigit_of_mem_toDigits (by decide) (by decide) hdigit
  rw [digitsValue, decimal, foldl_digits _ hdigits]
  exact Nat.ofDigitChars_toDigits (by decide) (by decide)

theorem isDigit_of_mem_decimal {n : Nat} {byte : UInt8} (h : byte ∈ decimal n) :
    isDigit byte = true :=
  isDigit_iff.mpr (mem_decimal h)

theorem decimal_ne_nil (n : Nat) : decimal n ≠ [] := by
  rw [decimal, ne_eq, List.map_eq_nil_iff]
  exact List.ne_nil_of_length_pos Nat.length_toDigits_pos

theorem parseU64_decimal {n : Nat} (h : n < 2 ^ 64) : parseU64 (decimal n) = some n := by
  rw [parseU64_of_digits (decimal_ne_nil n) fun byte hbyte => isDigit_of_mem_decimal hbyte,
    digitsValue_decimal, if_pos h]

end StructuredProxy

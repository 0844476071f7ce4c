import StructuredProxy.Lib.Lists

/-!
# Texts, percent-escapes and UTF-8

A `str` of the source is its bytes: every operation the routes make on one (splitting at `/`, finding
`:`, comparing escapes) is an operation on bytes. `normalizeEscapes` writes the hex digits of escapes
in upper case, `sameOctets` compares up to that without building the text.
-/

namespace StructuredProxy

abbrev Text := List UInt8

instance : LawfulBEq Text := inferInstance

/-- The bytes of a string constant of the source. -/
def str (s : String) : Text := s.toUTF8.data.toList

def decimal (n : Nat) : Text := (Nat.toDigits 10 n).map fun digit => digit.val.toUInt8

def slash : UInt8 := 47
def colon : UInt8 := 58
def percent : UInt8 := 37
def dot : UInt8 := 46
def star : UInt8 := 42
def equals : UInt8 := 61
def openBrace : UInt8 := 123
def closeBrace : UInt8 := 125

def stripPrefix (byte : UInt8) : Text → Option Text
  | [] => none
  | first :: rest => if first = byte then some rest else none

def stripSuffix (byte : UInt8) (text : Text) : Option Text :=
  if text.getLast? = some byte then some text.dropLast else none

def braced (text : Text) : Option Text :=
  (stripPrefix openBrace text).bind (stripSuffix closeBrace)

def hasBrace (text : Text) : Bool := text.contains openBrace || text.contains closeBrace

theorem mem_decimal {n : Nat} {byte : UInt8} (h : byte ∈ decimal n) : 48 ≤ byte ∧ byte ≤ 57 := by
  obtain ⟨digit, hmem, rfl⟩ := List.mem_map.mp h
  have hdigit := Nat.isDigit_of_mem_toDigits (by decide) (by decide) hmem
  rw [Char.isDigit, Bool.and_eq_true, decide_eq_true_eq, decide_eq_true_eq] at hdigit
  obtain ⟨hlow, hhigh⟩ := hdigit
  rw [ge_iff_le, UInt32.le_iff_toNat_le] at hlow
  rw [UInt32.le_iff_toNat_le] at hhigh
  simp only [UInt8.le_iff_toNat_le, UInt32.toNat_toUInt8]
  simp at hlow hhigh ⊢
  omega

theorem decimal_injective : Function.Injective decimal := by
  have hback : ∀ n, (decimal n).map (fun byte => Char.ofNat byte.toNat) = Nat.toDigits 10 n := by
    intro n
    rw [decimal, List.map_map]
    refine (List.map_congr_left fun digit hdigit => ?_).trans (List.map_id _)
    have hrange := Nat.isDigit_of_mem_toDigits (by decide) (by decide) hdigit
    rw [Char.isDigit, Bool.and_eq_true, decide_eq_true_eq, decide_eq_true_eq] at hrange
    have hle : digit.toNat ≤ 57 := hrange.2
    have hbyte : digit.val.toUInt8.toNat = digit.toNat := by
      rw [UInt32.toNat_toUInt8]
      exact Nat.mod_eq_of_lt (by change digit.toNat < _; omega)
    simp only [Function.comp, hbyte, Char.ofNat_toNat, id]
  intro m n h
  have hdigits : Nat.toDigits 10 m = Nat.toDigits 10 n := by rw [← hback m, ← hback n, h]
  calc m = Nat.ofDigitChars 10 (Nat.toDigits 10 m) 0 :=
        (Nat.ofDigitChars_toDigits (by decide) (by decide)).symm
    _ = Nat.ofDigitChars 10 (Nat.toDigits 10 n) 0 := by rw [hdigits]
    _ = n := Nat.ofDigitChars_toDigits (by decide) (by decide)

def isAsciiHexdigit (byte : UInt8) : Bool :=
  (48 ≤ byte && byte ≤ 57) || (65 ≤ byte && byte ≤ 70) || (97 ≤ byte && byte ≤ 102)

def toAsciiUppercase (byte : UInt8) : UInt8 :=
  if 97 ≤ byte && byte ≤ 122 then byte - 32 else byte

/-- `normalized_bytes` with `digits` bytes of an escape still to come. -/
def normalizedFrom : Nat → Text → Text
  | _, [] => []
  | 0, byte :: rest => byte :: normalizedFrom (if byte = percent then 2 else 0) rest
  | digits + 1, byte :: rest =>
      (if isAsciiHexdigit byte then toAsciiUppercase byte else byte) :: normalizedFrom digits rest

def normalizedBytes (text : Text) : Text := normalizedFrom 0 text

/-- The source borrows `text` when nothing changes; the bytes are those of `normalized_bytes` either
way. -/
def normalizeEscapes (text : Text) : Text := normalizedBytes text

def sameOctets (received normalized : Text) : Bool :=
  received.length == normalized.length && normalizedBytes received == normalized

@[simp]
theorem length_normalizedFrom (digits : Nat) (text : Text) :
    (normalizedFrom digits text).length = text.length := by
  induction text generalizing digits with
  | nil => cases digits <;> rfl
  | cons byte rest ih => cases digits <;> simp [normalizedFrom, ih]

@[simp]
theorem length_normalizeEscapes (text : Text) :
    (normalizeEscapes text).length = text.length :=
  length_normalizedFrom 0 text

/-- Comparing without building the normalized text is comparing with it. -/
theorem sameOctets_iff {received normalized : Text} :
    sameOctets received normalized = true ↔ normalizeEscapes received = normalized := by
  simp only [sameOctets, Bool.and_eq_true, beq_iff_eq, normalizeEscapes]
  constructor
  · exact fun h => h.2
  · intro h
    refine ⟨?_, h⟩
    rw [← h]
    exact (length_normalizedFrom 0 received).symm

theorem toAsciiUppercase_idem (byte : UInt8) :
    toAsciiUppercase (toAsciiUppercase byte) = toAsciiUppercase byte := by
  by_cases hlower : (97 ≤ byte && byte ≤ 122) = true
  · have hupper : (97 ≤ byte - 32 && byte - 32 ≤ 122) = false := by
      simp only [Bool.and_eq_true, decide_eq_true_eq, UInt8.le_iff_toNat_le] at hlower
      simp only [Bool.and_eq_false_iff, decide_eq_false_iff_not, UInt8.le_iff_toNat_le]
      left
      rw [UInt8.toNat_sub_of_le]
      · simp at hlower ⊢
        omega
      · simp [UInt8.le_iff_toNat_le] at hlower ⊢
        omega
    simp [toAsciiUppercase, hlower, hupper]
  · simp [toAsciiUppercase, hlower]

theorem normalizedFrom_idem (digits : Nat) (text : Text) :
    normalizedFrom digits (normalizedFrom digits text) = normalizedFrom digits text := by
  induction text generalizing digits with
  | nil => cases digits <;> rfl
  | cons byte rest ih =>
      cases digits with
      | zero => simp [normalizedFrom, ih]
      | succ digits =>
          by_cases hhex : isAsciiHexdigit byte = true
          · simp only [normalizedFrom, hhex, ↓reduceIte, ih, List.cons.injEq, and_true]
            split
            · exact toAsciiUppercase_idem byte
            · rfl
          · simp [normalizedFrom, hhex, ih]

@[simp]
theorem normalizeEscapes_idem (text : Text) :
    normalizeEscapes (normalizeEscapes text) = normalizeEscapes text :=
  normalizedFrom_idem 0 text

end StructuredProxy

import StructuredProxy.Lib.Machine
import StructuredProxy.Transcode.Text

/-!
# Percent-decoding

What the routes decode: a whole text, the value of a variable over several segments, whose `%2F` stays
as written, and the bytes of either read as UTF-8 with what is malformed replaced.
-/

namespace StructuredProxy

def hexDigit (byte : UInt8) : Option UInt8 :=
  if 48 ≤ byte && byte ≤ 57 then some (byte - 48)
  else if 65 ≤ byte && byte ≤ 70 then some (byte - 55)
  else if 97 ≤ byte && byte ≤ 102 then some (byte - 87)
  else none

def escapedOctet : Text → Option UInt8
  | first :: high :: low :: _ =>
      if first = percent then
        (hexDigit high).bind fun h => (hexDigit low).map fun l => 16 * h + l
      else none
  | _ => none

/-- An escape whose digits are to be kept is copied as written, any other one is replaced by its octet,
and every other byte is copied. -/
def scanEscapes (keeps : UInt8 → UInt8 → Bool) : Text → Text
  | first :: high :: low :: rest =>
      match escapedOctet (first :: high :: low :: rest) with
      | some octet =>
          (if keeps high low then [first, high, low] else [octet]) ++ scanEscapes keeps rest
      | none => first :: scanEscapes keeps (high :: low :: rest)
  | short => short

/-- `percent_decode` of the `percent-encoding` crate: from left to right, the scan that keeps no
escape. -/
structure PercentDecoder where
  decode : Text → Text
  decode_eq_scan : ∀ text, decode text = scanEscapes (fun _ _ => false) text

def percentDecoder : PercentDecoder := ⟨scanEscapes fun _ _ => false, fun _ => rfl⟩

def isSlashEscape : Text → Bool
  | first :: second :: third :: _ => first == percent && second == 50 && (third ||| 0x20) == 102
  | _ => false

def slashEscapeAt : Text → Option Nat
  | [] => none
  | byte :: rest =>
      if isSlashEscape (byte :: rest) then some 0 else (slashEscapeAt rest).map (· + 1)

def isSlashDigits (high low : UInt8) : Bool := high == 50 && (low == 70 || low == 102)

theorem isSlashEscape_cons (first high low : UInt8) (rest : Text) :
    isSlashEscape (first :: high :: low :: rest) = true ↔
      first = percent ∧ isSlashDigits high low = true := by
  have hcase : ((low ||| 0x20) == 102) = (low == 70 || low == 102) := by
    revert low
    apply Lib.byte_forall
    decide +kernel
  simp only [isSlashEscape, isSlashDigits, hcase, Bool.and_eq_true, beq_iff_eq, and_assoc]

theorem slashEscapeAt_cons_eq_none {byte : UInt8} {rest : Text} :
    slashEscapeAt (byte :: rest) = none ↔
      isSlashEscape (byte :: rest) = false ∧ slashEscapeAt rest = none := by
  rw [slashEscapeAt]
  cases isSlashEscape (byte :: rest) <;> simp

theorem slashEscapeAt_eq_some {text : Text} {i : Nat} (h : slashEscapeAt text = some i) :
    ∃ before high low after, text = before ++ percent :: high :: low :: after ∧ before.length = i ∧
      isSlashDigits high low = true ∧ slashEscapeAt before = none := by
  induction text generalizing i with
  | nil => cases h
  | cons byte rest ih =>
      rw [slashEscapeAt] at h
      split at h
      · rename_i hhere
        obtain rfl := Option.some.inj h
        match rest with
        | [] => cases hhere
        | [_] => cases hhere
        | high :: low :: after =>
            obtain ⟨rfl, hdigits⟩ := (isSlashEscape_cons byte high low after).mp hhere
            exact ⟨[], high, low, after, rfl, rfl, hdigits, rfl⟩
      · rename_i hhere
        obtain ⟨j, hj, rfl⟩ := Option.map_eq_some_iff.mp h
        obtain ⟨before, high, low, after, rfl, hlength, hdigits, hnone⟩ := ih hj
        refine ⟨byte :: before, high, low, after, rfl, by rw [List.length_cons, hlength], hdigits, ?_⟩
        refine slashEscapeAt_cons_eq_none.mpr ⟨?_, hnone⟩
        -- a `%2F` at the head of the part is one at the head of the text
        match before with
        | [] => rfl
        | [_] => rfl
        | second :: third :: before => exact Bool.eq_false_iff.mpr hhere

section

variable (decoder : PercentDecoder)

def decodeMultiSegmentFrom (rest : Text) : Text :=
  match h : slashEscapeAt rest with
  | some i =>
      decoder.decode (rest.take i) ++ (rest.drop i).take 3 ++
        decodeMultiSegmentFrom (rest.drop (i + 3))
  | none => decoder.decode rest
termination_by rest.length
decreasing_by
  obtain ⟨before, high, low, after, rfl, rfl, -⟩ := slashEscapeAt_eq_some h
  simp only [List.drop_length_add_append, List.length_append, List.length_cons, List.drop_succ_cons,
    List.drop_zero]
  omega

def decodeMultiSegment (raw : Text) : Text :=
  if (slashEscapeAt raw).isNone then decoder.decode raw else decodeMultiSegmentFrom decoder raw

end

def continuations (lead : UInt8) : Option (List (UInt8 × UInt8)) :=
  if lead < 0x80 then some []
  else if 0xC2 ≤ lead && lead ≤ 0xDF then some [(0x80, 0xBF)]
  else if lead = 0xE0 then some [(0xA0, 0xBF), (0x80, 0xBF)]
  else if lead = 0xED then some [(0x80, 0x9F), (0x80, 0xBF)]
  else if 0xE1 ≤ lead && lead ≤ 0xEF then some [(0x80, 0xBF), (0x80, 0xBF)]
  else if lead = 0xF0 then some [(0x90, 0xBF), (0x80, 0xBF), (0x80, 0xBF)]
  else if 0xF1 ≤ lead && lead ≤ 0xF3 then some [(0x80, 0xBF), (0x80, 0xBF), (0x80, 0xBF)]
  else if lead = 0xF4 then some [(0x80, 0x8F), (0x80, 0xBF), (0x80, 0xBF)]
  else none

def takeContinuations : List (UInt8 × UInt8) → Text → Text × Bool
  | [], _ => ([], true)
  | _ :: _, [] => ([], false)
  | (low, high) :: ranges, byte :: rest =>
      if low ≤ byte && byte ≤ high then
        let (taken, complete) := takeContinuations ranges rest
        (byte :: taken, complete)
      else ([], false)

def replacement : Text := [0xEF, 0xBF, 0xBD]

def utf8LossyFrom : Nat → Text → Text
  | _, [] => []
  | skip + 1, _ :: rest => utf8LossyFrom skip rest
  | 0, lead :: rest =>
      match continuations lead with
      | none => replacement ++ utf8LossyFrom 0 rest
      | some ranges =>
          let (taken, complete) := takeContinuations ranges rest
          (if complete then lead :: taken else replacement) ++ utf8LossyFrom taken.length rest

def fromUtf8Lossy (bytes : Text) : Text := utf8LossyFrom 0 bytes

theorem fromUtf8Lossy_cons {byte : UInt8} (hbyte : byte < 0x80) (rest : Text) :
    fromUtf8Lossy (byte :: rest) = byte :: fromUtf8Lossy rest := by
  simp [fromUtf8Lossy, utf8LossyFrom, continuations, takeContinuations, hbyte]

theorem fromUtf8Lossy_ascii {text : Text} (h : ∀ byte ∈ text, byte < 0x80) :
    fromUtf8Lossy text = text := by
  induction text with
  | nil => rfl
  | cons byte text ih =>
      rw [fromUtf8Lossy_cons (h byte List.mem_cons_self),
        ih fun other hother => h other (List.mem_cons_of_mem _ hother)]

/-- A lossy reading changes exactly what is not UTF-8. -/
def isUtf8 (bytes : Text) : Bool := fromUtf8Lossy bytes == bytes

example : fromUtf8Lossy (str ":aé" ++ [0xFF]) = str ":aé" ++ replacement := by decide

/-! `decode_multi_segment` cuts the text at every `%2F` and decodes the pieces, which is the scan that
keeps `%2F`, since no escape has a `%` inside. -/

variable {decoder : PercentDecoder} {keeps : UInt8 → UInt8 → Bool}

theorem escapedOctet_cons {byte : UInt8} (hbyte : byte ≠ percent) (rest : Text) :
    escapedOctet (byte :: rest) = none := by
  match rest with
  | [] => rfl
  | [_] => rfl
  | high :: low :: rest => rw [escapedOctet, if_neg hbyte]

theorem escapedOctet_second {byte : UInt8} (hbyte : hexDigit byte = none) (first : UInt8) (rest : Text) :
    escapedOctet (first :: byte :: rest) = none := by
  match rest with
  | [] => rfl
  | low :: rest => rw [escapedOctet, hbyte, Option.bind_none, ite_self]

theorem escapedOctet_third {byte : UInt8} (hbyte : hexDigit byte = none) (first high : UInt8)
    (rest : Text) : escapedOctet (first :: high :: byte :: rest) = none := by
  rw [escapedOctet, hbyte]
  cases hexDigit high <;> exact ite_self _

theorem scanEscapes_cons {first : UInt8} {rest : Text} (h : escapedOctet (first :: rest) = none) :
    scanEscapes keeps (first :: rest) = first :: scanEscapes keeps rest := by
  match rest with
  | [] => rfl
  | [_] => rfl
  | high :: low :: rest => rw [scanEscapes, h]

theorem scanEscapes_escape {first high low octet : UInt8} {rest : Text}
    (h : escapedOctet (first :: high :: low :: rest) = some octet) :
    scanEscapes keeps (first :: high :: low :: rest) =
      (if keeps high low then [first, high, low] else [octet]) ++ scanEscapes keeps rest := by
  rw [scanEscapes, h]

/-- **A text may be cut before any byte that is no hex digit**: no escape goes across. -/
theorem scanEscapes_append {byte : UInt8} (hbyte : hexDigit byte = none) (text rest : Text) :
    scanEscapes keeps (text ++ byte :: rest) =
      scanEscapes keeps text ++ scanEscapes keeps (byte :: rest) := by
  fun_induction scanEscapes keeps text with
  | case1 first high low after octet hoctet ih =>
      have hwhole : escapedOctet (first :: high :: low :: (after ++ byte :: rest)) = some octet := hoctet
      rw [List.cons_append, List.cons_append, List.cons_append, scanEscapes_escape hwhole, ih,
        List.append_assoc]
  | case2 first high low after hnone ih =>
      have hwhole : escapedOctet (first :: high :: low :: (after ++ byte :: rest)) = none := hnone
      rw [List.cons_append, List.cons_append, List.cons_append, scanEscapes_cons hwhole,
        ← List.cons_append, ← List.cons_append, ih, List.cons_append]
  | case3 short hshort =>
      match short with
      | [] => rfl
      | [first] => exact scanEscapes_cons (escapedOctet_second hbyte first rest)
      | [first, second] =>
          rw [List.cons_append, List.cons_append, List.nil_append,
            scanEscapes_cons (escapedOctet_third hbyte first second rest),
            scanEscapes_cons (escapedOctet_second hbyte second rest)]
          rfl
      | first :: high :: low :: after => exact (hshort first high low after rfl).elim

theorem scanEscapes_eq_decode {text : Text} (h : slashEscapeAt text = none) :
    scanEscapes isSlashDigits text = decoder.decode text := by
  rw [decoder.decode_eq_scan]
  fun_induction scanEscapes isSlashDigits text with
  | case1 first high low rest octet hoctet ih =>
      obtain ⟨hhere, hrest⟩ := slashEscapeAt_cons_eq_none.mp h
      have hpercent : first = percent := by
        by_contra hother
        rw [escapedOctet_cons hother] at hoctet
        cases hoctet
      have hkeeps : ¬ isSlashDigits high low = true := fun hdigits =>
        Bool.eq_false_iff.mp hhere ((isSlashEscape_cons first high low rest).mpr ⟨hpercent, hdigits⟩)
      have hafter := (slashEscapeAt_cons_eq_none.mp (slashEscapeAt_cons_eq_none.mp hrest).2).2
      rw [scanEscapes_escape hoctet, if_neg hkeeps, ih hafter]
      rfl
  | case2 first high low rest hnone ih =>
      rw [scanEscapes_cons hnone, ih (slashEscapeAt_cons_eq_none.mp h).2]
  | case3 short hshort =>
      rw [scanEscapes]
      exact hshort

theorem scanEscapes_slash {high low : UInt8} (hdigits : isSlashDigits high low = true) (rest : Text) :
    scanEscapes isSlashDigits (percent :: high :: low :: rest) =
      percent :: high :: low :: scanEscapes isSlashDigits rest := by
  have hoctet : escapedOctet (percent :: high :: low :: rest) = some 47 := by
    simp only [isSlashDigits, Bool.and_eq_true, Bool.or_eq_true, beq_iff_eq] at hdigits
    obtain ⟨rfl, rfl | rfl⟩ := hdigits
    · rfl
    · rfl
  rw [scanEscapes_escape hoctet, if_pos hdigits]
  rfl

theorem decodeMultiSegmentFrom_eq_scan (rest : Text) :
    decodeMultiSegmentFrom decoder rest = scanEscapes isSlashDigits rest := by
  fun_induction decodeMultiSegmentFrom decoder rest with
  | case1 rest i hsome ih =>
      obtain ⟨before, high, low, after, rfl, rfl, hdigits, hnone⟩ := slashEscapeAt_eq_some hsome
      rw [List.drop_length_add_append] at ih
      rw [List.take_left, List.drop_left, List.drop_length_add_append, ih,
        scanEscapes_append (by decide), scanEscapes_slash hdigits, scanEscapes_eq_decode hnone,
        List.append_assoc]
      rfl
  | case2 rest hnone => exact (scanEscapes_eq_decode hnone).symm

/-- The early return of a text without `%2F` is what the loop would return. -/
theorem decodeMultiSegment_eq (raw : Text) :
    decodeMultiSegment decoder raw = decodeMultiSegmentFrom decoder raw := by
  unfold decodeMultiSegment
  split
  · rename_i hnone
    rw [decodeMultiSegmentFrom_eq_scan, scanEscapes_eq_decode (Option.isNone_iff_eq_none.mp hnone)]
  · rfl

/-- **`decode_multi_segment` is the scan that keeps `%2F`**, on every text. -/
theorem decodeMultiSegment_eq_scan (decoder : PercentDecoder) (raw : Text) :
    decodeMultiSegment decoder raw = scanEscapes isSlashDigits raw := by
  rw [decodeMultiSegment_eq, decodeMultiSegmentFrom_eq_scan]

example : scanEscapes isSlashDigits (str "%%2F%252F%2f%41%2") = str "%%2F%2F%2fA%2" := by decide

theorem scanEscapes_cons_colon (rest : Text) :
    scanEscapes keeps (colon :: rest) = colon :: scanEscapes keeps rest :=
  scanEscapes_cons (escapedOctet_cons (by decide) rest)

theorem scanEscapes_append_colon (text rest : Text) :
    scanEscapes keeps (text ++ colon :: rest) =
      scanEscapes keeps text ++ colon :: scanEscapes keeps rest := by
  rw [scanEscapes_append (by decide), scanEscapes_cons_colon]

theorem PercentDecoder.decode_append_colon (decoder : PercentDecoder) (text rest : Text) :
    decoder.decode (text ++ colon :: rest) = decoder.decode text ++ colon :: decoder.decode rest := by
  simp only [decoder.decode_eq_scan, scanEscapes_append_colon]

theorem PercentDecoder.decode_cons_colon (decoder : PercentDecoder) (rest : Text) :
    decoder.decode (colon :: rest) = colon :: decoder.decode rest := by
  simp only [decoder.decode_eq_scan, scanEscapes_cons_colon]

theorem decodeMultiSegment_append_colon (text rest : Text) :
    decodeMultiSegment decoder (text ++ colon :: rest) =
      decodeMultiSegment decoder text ++ colon :: decodeMultiSegment decoder rest := by
  simp only [decodeMultiSegment_eq, decodeMultiSegmentFrom_eq_scan, scanEscapes_append_colon]

theorem decodeMultiSegment_cons_colon (rest : Text) :
    decodeMultiSegment decoder (colon :: rest) = colon :: decodeMultiSegment decoder rest := by
  simp only [decodeMultiSegment_eq, decodeMultiSegmentFrom_eq_scan, scanEscapes_cons_colon]

end StructuredProxy

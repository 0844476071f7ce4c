import StructuredProxy.Lib.Machine
import StructuredProxy.Metadata.Forwarded

/-!
# Binary values in metadata

A value under a name that ends in `-bin` must be base64, padded or not, possibly several encodings
joined by commas. The check judges each part trimmed and by the arithmetic of its length; what it accepts
is what a strict decoder accepts. But only the parts of a joined value are forwarded trimmed: a value
without a comma travels with the space around it, and such a value no strict decoder accepts.
-/

namespace StructuredProxy.Metadata

open Lib

/-! ### The check against a decoder -/

/-- The value of a digit, RFC 4648 §4, Table 1. -/
def digitValue (digit : UInt8) : Option Nat :=
  if 65 ≤ digit && digit ≤ 90 then some (digit.toNat - 65)
  else if 97 ≤ digit && digit ≤ 122 then some (digit.toNat - 97 + 26)
  else if 48 ≤ digit && digit ≤ 57 then some (digit.toNat - 48 + 52)
  else if digit = 43 then some 62
  else if digit = 47 then some 63
  else none

/-- Digits that encode whole bytes, with no bits set past the last one. -/
def Digits (data : Text) : Prop :=
  data.length % 4 ≠ 1 ∧ (∀ digit ∈ data, (digitValue digit).isSome = true) ∧
    ∀ last ∈ data.getLast?, ∀ value ∈ digitValue last,
      (data.length % 4 = 2 → value % 16 = 0) ∧ (data.length % 4 = 3 → value % 4 = 0)

/-- Digits, or digits with the padding that closes the last group of four. -/
def Encoding (text : Text) : Prop :=
  Digits text ∨ (∃ data, text = data ++ str "==" ∧ Digits data ∧ data.length % 4 = 2) ∨
    ∃ data, text = data ++ str "=" ∧ Digits data ∧ data.length % 4 = 3

/-- A strict decoder of base64, padded or not. -/
structure StrictDecoder where
  decode : Text → Option Text
  accepts : ∀ text, (decode text).isSome = true ↔ Encoding text

def pad : UInt8 := 61

def inAlphabet (byte : UInt8) : Bool := isAsciiAlphanumeric byte || byte = 43 || byte = 47

theorem digitValue_isSome (byte : UInt8) : (digitValue byte).isSome = inAlphabet byte := by
  revert byte
  apply byte_forall
  decide +kernel

theorem base64Digit_eq {byte : UInt8} {value : Nat} (h : digitValue byte = some value) :
    (base64Digit byte &&& 0b1111 = 0 ↔ value % 16 = 0) ∧
      (base64Digit byte &&& 0b0011 = 0 ↔ value % 4 = 0) := by
  have hall : ∀ byte : UInt8, ∀ value ∈ digitValue byte,
      (base64Digit byte &&& 0b1111 = 0 ↔ value % 16 = 0) ∧
        (base64Digit byte &&& 0b0011 = 0 ↔ value % 4 = 0) := by
    apply byte_forall
    decide +kernel
  exact hall byte value h

/-- The check of the source, by its own value of a digit. -/
theorem digits_iff {data : Text} : Digits data ↔
    data.length % 4 ≠ 1 ∧ data.all inAlphabet = true ∧ canonicalTail data = true := by
  simp only [Digits, digitValue_isSome, List.all_eq_true]
  refine and_congr_right fun hlength => and_congr_right fun halphabet => ?_
  rw [canonicalTail]
  cases hlast : data.getLast? with
  | none =>
      rw [List.getLast?_eq_none_iff.mp hlast]
      simp
  | some last =>
      have hsome := digitValue_isSome last
      rw [halphabet last (List.mem_of_getLast? hlast)] at hsome
      obtain ⟨value, hvalue⟩ := Option.isSome_iff_exists.mp hsome
      obtain ⟨hfour, htwo⟩ := base64Digit_eq hvalue
      by_cases htwoOver : data.length % 4 = 2
      · simp [htwoOver, hvalue, hfour]
      · by_cases hthreeOver : data.length % 4 = 3
        · simp [hthreeOver, hvalue, htwo]
        · simp [htwoOver, hthreeOver]

theorem Digits.pad_notMem {data : Text} (h : Digits data) : pad ∉ data := by
  intro hmem
  exact absurd (h.2.1 pad hmem) (by decide +kernel)

theorem stripEnding_eq_some_iff {ending text data : Text} :
    stripEnding ending text = some data ↔ text = data ++ ending := by
  unfold stripEnding
  constructor
  · intro h
    split at h
    · next hends =>
        obtain ⟨before, rfl⟩ := List.isSuffixOf_iff_suffix.mp hends
        rw [Option.some.injEq, List.length_append, Nat.add_sub_cancel, List.take_left'  rfl] at h
        rw [h]
    · exact absurd h (by simp)
  · rintro rfl
    rw [if_pos (List.isSuffixOf_iff_suffix.mpr (List.suffix_append _ _)), List.length_append,
      Nat.add_sub_cancel, List.take_left' rfl]

theorem ne_append_of_stripEnding {ending text : Text} (h : stripEnding ending text = none) (data : Text) :
    text ≠ data ++ ending := by
  intro htext
  rw [stripEnding_eq_some_iff.mpr htext] at h
  cases h

/-- **The check of a part accepts the encodings, trimmed.** -/
theorem isBase64Part_iff (part : Text) : isBase64Part part = true ↔ Encoding (trimAscii part) := by
  have hone : str "=" = [pad] := by decide +kernel
  have htwo : str "==" = [pad] ++ [pad] := by decide +kernel
  unfold isBase64Part
  dsimp only
  generalize trimAscii part = text
  cases hdouble : stripEnding (str "==") text with
  | some data =>
      have htext := stripEnding_eq_some_iff.mp hdouble
      have hlength : text.length = data.length + 2 := by
        rw [htext, List.length_append, htwo]
        rfl
      rw [Option.some_or]
      dsimp only
      rw [Bool.and_eq_true, Bool.and_eq_true, decide_eq_true_eq, hlength]
      constructor
      · rintro ⟨⟨hcount, halphabet⟩, htail⟩
        exact Or.inr (Or.inl ⟨data, htext, digits_iff.mpr ⟨by omega, halphabet, htail⟩, by omega⟩)
      · rintro (hdigits | ⟨other, hother, hdigits, hcount⟩ | ⟨other, hother, hdigits, -⟩)
        · exact absurd (by rw [htext, htwo]; simp) hdigits.pad_notMem
        · have hdata : data = other := List.append_cancel_right (htext.symm.trans hother)
          obtain ⟨-, halphabet, htail⟩ := digits_iff.mp hdigits
          rw [hdata]
          exact ⟨⟨by omega, halphabet⟩, htail⟩
        · have hdata : data ++ [pad] = other := by
            rw [htext, htwo, hone, ← List.append_assoc] at hother
            exact List.append_cancel_right hother
          exact absurd (by rw [← hdata]; simp) hdigits.pad_notMem
  | none =>
      have hnotDouble := ne_append_of_stripEnding hdouble
      rw [Option.none_or]
      cases hsingle : stripEnding (str "=") text with
      | some data =>
          have htext := stripEnding_eq_some_iff.mp hsingle
          have hlength : text.length = data.length + 1 := by
            rw [htext, List.length_append, hone]
            rfl
          dsimp only
          rw [Bool.and_eq_true, Bool.and_eq_true, decide_eq_true_eq, hlength]
          constructor
          · rintro ⟨⟨hcount, halphabet⟩, htail⟩
            exact Or.inr (Or.inr ⟨data, htext, digits_iff.mpr ⟨by omega, halphabet, htail⟩, by omega⟩)
          · rintro (hdigits | ⟨other, hother, -, -⟩ | ⟨other, hother, hdigits, hcount⟩)
            · exact absurd (by rw [htext, hone]; simp) hdigits.pad_notMem
            · exact absurd hother (hnotDouble other)
            · have hdata : data = other := List.append_cancel_right (htext.symm.trans hother)
              obtain ⟨-, halphabet, htail⟩ := digits_iff.mp hdigits
              rw [hdata]
              exact ⟨⟨by omega, halphabet⟩, htail⟩
      | none =>
          have hnotSingle := ne_append_of_stripEnding hsingle
          dsimp only
          rw [Bool.and_eq_true, Bool.and_eq_true, decide_eq_true_eq]
          constructor
          · rintro ⟨⟨hcount, halphabet⟩, htail⟩
            exact Or.inl (digits_iff.mpr ⟨hcount, halphabet, htail⟩)
          · rintro (hdigits | ⟨other, hother, -, -⟩ | ⟨other, hother, -, -⟩)
            · obtain ⟨hcount, halphabet, htail⟩ := digits_iff.mp hdigits
              exact ⟨⟨hcount, halphabet⟩, htail⟩
            · exact absurd hother (hnotDouble other)
            · exact absurd hother (hnotSingle other)

theorem trimAscii_eq_self {value : Text} (h : ∀ byte ∈ value, isAsciiWhitespace byte = false) :
    trimAscii value = value := by
  have hstart : value.dropWhile isAsciiWhitespace = value := by
    cases value with
    | nil => rfl
    | cons first rest => rw [List.dropWhile_cons_of_neg (by simp [h first List.mem_cons_self])]
  rw [trimAscii, hstart]
  apply List.rdropWhile_eq_self_iff.mpr
  intro hne
  simp [h _ (List.getLast_mem hne)]

theorem Encoding.trimAscii_eq {text : Text} (h : Encoding text) : trimAscii text = text := by
  have hdigit : ∀ byte : UInt8, (digitValue byte).isSome = true → isAsciiWhitespace byte = false := by
    apply byte_forall
    decide +kernel
  have hpads : ∀ byte ∈ str "==", isAsciiWhitespace byte = false := by decide +kernel
  have hpad : ∀ byte ∈ str "=", isAsciiWhitespace byte = false := by decide +kernel
  apply trimAscii_eq_self
  intro byte hmem
  obtain hdigits | ⟨data, rfl, hdigits, -⟩ | ⟨data, rfl, hdigits, -⟩ := h
  · exact hdigit byte (hdigits.2.1 byte hmem)
  · obtain hmem | hmem := List.mem_append.mp hmem
    · exact hdigit byte (hdigits.2.1 byte hmem)
    · exact hpads byte hmem
  · obtain hmem | hmem := List.mem_append.mp hmem
    · exact hdigit byte (hdigits.2.1 byte hmem)
    · exact hpad byte hmem

/-! ### The metadata of a request -/

def binaryParts (headers : Headers) (name : Text) : List Text :=
  (headers.getAll name).flatMap fun value => (value.splitOn Addressing.comma).map trimAscii

def sourceOf (rewritten : Bool) : Source := if rewritten then .rewritten else .client

section

variable (decoder : StrictDecoder)

/-- No metadata can carry the value: a part is no encoding, or the text is empty or has a byte that is
neither visible nor a space. -/
def Unfit (name value : Text) : Prop :=
  if isBinary name then
    ∃ part ∈ value.splitOn Addressing.comma, decoder.decode (trimAscii part) = none
  else value = [] ∨ ∃ byte ∈ value, byte < 0x20 ∨ 0x7e < byte

theorem carries_eq_false_iff {name value : Text} :
    carries name value = false ↔ Unfit decoder name value := by
  unfold carries Unfit
  split
  · rw [isBase64Value, List.all_eq_false]
    simp only [isBase64Part_iff, ← decoder.accepts, Option.not_isSome_iff_eq_none]
  · rw [isAsciiValue, Bool.and_eq_false_iff, Bool.not_eq_false', List.isEmpty_iff, List.all_eq_false]
    simp only [Bool.and_eq_true, decide_eq_true_eq, not_and_or, UInt8.not_le]

def Refused (headers : Headers) (forwarded : Forwarded) (rewritten : Bool) : Prop :=
  ∃ name ∈ forwarded.names, passes (sourceOf rewritten) name = true ∧
    ∃ value ∈ headers.getAll name, Unfit decoder name value

end

variable {decoder : StrictDecoder} {random : Random} {headers : Headers} {forwarded : Forwarded}
  {rewritten : Bool}

theorem accepts_checkCarries_iff (decoder : StrictDecoder) {name : Text} :
    Accepts checkCarries headers name ↔ ¬ ∃ value ∈ headers.getAll name, Unfit decoder name value := by
  have hcheck : ∀ value, checkCarries name value = .ok () ↔ ¬ Unfit decoder name value := by
    intro value
    rw [← carries_eq_false_iff decoder, Bool.not_eq_false, checkCarries]
    split
    · next h => simp [h]
    · next h => simp [h]
  unfold Accepts
  push Not
  simp only [hcheck]

/-- The request is refused exactly when a forwarded value is unfit. -/
theorem forwardedMetadata_error_iff :
    (∃ error, forwardedMetadata random headers forwarded rewritten = .error error) ↔
      Refused decoder headers forwarded rewritten := by
  have hok := @forwardAll_isOk_iff InvalidForwardedHeader checkCarries (sourceOf rewritten) headers
    forwarded.names
  unfold forwardedMetadata forward
  rw [← sourceOf]
  unfold Refused
  cases hall : forwardAll checkCarries (sourceOf rewritten) headers forwarded.names HeaderMap.empty with
  | error error =>
      refine ⟨fun _ => ?_, fun _ => ⟨error, rfl⟩⟩
      rw [hall] at hok
      by_contra hnone
      obtain ⟨out, hout⟩ := hok.mpr fun name hname hpasses =>
        (accepts_checkCarries_iff decoder).mpr fun hbad => hnone ⟨name, hname, hpasses, hbad⟩
      exact absurd hout (by simp)
  | ok out =>
      constructor
      · rintro ⟨error, herror⟩
        exact absurd herror (by simp [Except.map])
      · rintro ⟨name, hname, hpasses, hbad⟩
        exact absurd hbad ((accepts_checkCarries_iff decoder).mp (hok.mp
          ⟨out, hall⟩ name hname hpasses))

theorem getAll_of_forwardedMetadata {metadata : Headers}
    (h : forwardedMetadata random headers forwarded rewritten = .ok metadata) {name : Text}
    (hbinary : isBinary name = true) :
    metadata.getAll name =
      if passes (sourceOf rewritten) name = true ∧ name ∈ forwarded.names then
        forwardedValues headers name
      else [] := by
  have hparent : name ≠ traceparent := by
    rintro rfl
    exact absurd hbinary (by decide +kernel)
  have hstate : name ≠ tracestate := by
    rintro rfl
    exact absurd hbinary (by decide +kernel)
  unfold forwardedMetadata forward at h
  rw [← sourceOf] at h
  cases hall : forwardAll checkCarries (sourceOf rewritten) headers forwarded.names HeaderMap.empty with
  | error error =>
      rw [hall] at h
      exact absurd h (by simp [Except.map])
  | ok out =>
      rw [hall] at h
      have hmetadata : injectTraceContext random headers out = metadata := by simpa [Except.map] using h
      rw [← hmetadata, getAll_injectTraceContext random out hparent hstate]
      exact (After.empty.run hall).values name

/-- Every value under a binary name is an encoding by itself, the values decode to what the parts of the
request's values decode to, and a request is refused exactly for an unfit value. -/
structure BinaryCarried (decoder : StrictDecoder) (random : Random) (headers : Headers)
    (forwarded : Forwarded) (rewritten : Bool) : Prop where
  decodes : ∀ metadata, forwardedMetadata random headers forwarded rewritten = .ok metadata →
    ∀ name, isBinary name = true → metadata.containsKey name = true →
      (∀ value ∈ metadata.getAll name, (decoder.decode value).isSome = true) ∧
        (metadata.getAll name).map decoder.decode = (binaryParts headers name).map decoder.decode
  refuses : (∃ error, forwardedMetadata random headers forwarded rewritten = .error error) ↔
    Refused decoder headers forwarded rewritten

def Tight (headers : Headers) (forwarded : Forwarded) (rewritten : Bool) : Prop :=
  ∀ name ∈ forwarded.names, passes (sourceOf rewritten) name = true → isBinary name = true →
    ∀ value ∈ headers.getAll name, Addressing.comma ∉ value → trimAscii value = value

theorem forwardedParts_of_notMem {name value : Text} (h : Addressing.comma ∉ value) :
    forwardedParts name value = [value] := by
  rw [forwardedParts, if_neg (by simp [h])]

theorem forwardedValues_eq_binaryParts {name : Text} (hbinary : isBinary name = true)
    (htight : ∀ value ∈ headers.getAll name, Addressing.comma ∉ value → trimAscii value = value) :
    forwardedValues headers name = binaryParts headers name := by
  unfold forwardedValues binaryParts
  rw [List.flatMap_def, List.flatMap_def]
  congr 1
  apply List.map_congr_left
  intro value hvalue
  by_cases hcomma : Addressing.comma ∈ value
  · rw [forwardedParts, hbinary, if_pos (by simpa using hcomma)]
  · rw [forwardedParts_of_notMem hcomma, splitOn_of_splitOnce_none (splitOnce_eq_none_iff.mpr hcomma),
      List.map_singleton, htight value hvalue hcomma]

theorem decode_isSome_of_mem_binaryParts {name value : Text} (hbinary : isBinary name = true)
    (haccepts : Accepts checkCarries headers name) (hvalue : value ∈ binaryParts headers name) :
    (decoder.decode value).isSome = true := by
  obtain ⟨whole, hwhole, hpart⟩ := List.mem_flatMap.mp hvalue
  obtain ⟨part, hsplit, rfl⟩ := List.mem_map.mp hpart
  by_contra hnone
  apply (accepts_checkCarries_iff decoder).mp haccepts
  refine ⟨whole, hwhole, ?_⟩
  rw [Unfit, if_pos hbinary]
  exact ⟨part, hsplit, by simpa using hnone⟩

/-- **Binary values reach the upstream as encodings**, unless one without a comma has space around it:
the check trims it and the forwarding does not. -/
theorem binaryCarried_iff : BinaryCarried decoder random headers forwarded rewritten ↔
    Refused decoder headers forwarded rewritten ∨ Tight headers forwarded rewritten := by
  constructor
  · intro hcarried
    by_cases hrefused : Refused decoder headers forwarded rewritten
    · exact Or.inl hrefused
    · right
      intro name hname hpasses hbinary value hvalue hcomma
      cases hmetadata : forwardedMetadata random headers forwarded rewritten with
      | error error => exact absurd (hcarried.refuses.mp ⟨error, hmetadata⟩) hrefused
      | ok metadata =>
          have hall := getAll_of_forwardedMetadata hmetadata hbinary
          rw [if_pos ⟨hpasses, hname⟩] at hall
          have hmem : value ∈ metadata.getAll name := by
            rw [hall]
            apply List.mem_flatMap.mpr
            exact ⟨value, hvalue, by rw [forwardedParts_of_notMem hcomma]; exact List.mem_cons_self⟩
          have hcontains : metadata.containsKey name = true := by
            rw [HeaderMap.containsKey_eq, Bool.not_eq_true', List.isEmpty_eq_false_iff]
            exact List.ne_nil_of_mem hmem
          have hdecodes := (hcarried.decodes metadata hmetadata name hbinary hcontains).1 value hmem
          exact ((decoder.accepts value).mp hdecodes).trimAscii_eq
  · intro hcondition
    refine ⟨?_, forwardedMetadata_error_iff⟩
    intro metadata hmetadata name hbinary hcontains
    have hnot : ¬ Refused decoder headers forwarded rewritten := by
      intro hrefused
      obtain ⟨error, herror⟩ := forwardedMetadata_error_iff.mpr hrefused
      rw [hmetadata] at herror
      exact absurd herror (by simp)
    have htight := hcondition.resolve_left hnot
    have hall := getAll_of_forwardedMetadata hmetadata hbinary
    by_cases hforwarded : passes (sourceOf rewritten) name = true ∧ name ∈ forwarded.names
    · obtain ⟨hpasses, hname⟩ := hforwarded
      rw [if_pos ⟨hpasses, hname⟩,
        forwardedValues_eq_binaryParts hbinary (htight name hname hpasses hbinary)] at hall
      have haccepts : Accepts checkCarries headers name :=
        (accepts_checkCarries_iff decoder).mpr fun hbad => hnot ⟨name, hname, hpasses, hbad⟩
      rw [hall]
      exact ⟨fun value hvalue => decode_isSome_of_mem_binaryParts hbinary haccepts hvalue, rfl⟩
    · rw [if_neg hforwarded] at hall
      rw [HeaderMap.containsKey_eq, hall] at hcontains
      exact absurd hcontains (by decide)

def traceBin : Text := str "x-trace-bin"

def spacedHeaders : Headers := ⟨[(traceBin, str " AAEC")]⟩

def spacedDecoder : StrictDecoder where
  decode := fun text =>
    if text = str "AAEC" then some [0, 1, 2]
    else if trimAscii text = text ∧ isBase64Part text then some []
    else none
  accepts := by
    intro text
    have hiff : Encoding text ↔ trimAscii text = text ∧ isBase64Part text = true := by
      rw [isBase64Part_iff]
      constructor
      · intro h
        rw [h.trimAscii_eq]
        exact ⟨rfl, h⟩
      · rintro ⟨htrim, h⟩
        rwa [htrim] at h
    rw [hiff]
    split
    · rename_i htext
      subst htext
      decide +kernel
    · split <;> simp_all

theorem spaced_not_carried :
    ¬ BinaryCarried spacedDecoder ⟨none, some 7⟩ spacedHeaders (.listed some [traceBin]) false := by
  intro hcarried
  have hbinary : isBinary traceBin = true := by decide +kernel
  have hmetadata : forwardedMetadata ⟨none, some 7⟩ spacedHeaders (.listed some [traceBin]) false =
      .ok (injectTraceContext ⟨none, some 7⟩ spacedHeaders spacedHeaders) := by
    rfl
  have hall : (injectTraceContext ⟨none, some 7⟩ spacedHeaders spacedHeaders).getAll traceBin =
      [str " AAEC"] := by
    rw [getAll_of_forwardedMetadata hmetadata hbinary]
    decide +kernel
  have hvalue := (hcarried.decodes _ hmetadata traceBin hbinary (by
    rw [HeaderMap.containsKey_eq, hall]; rfl)).1 (str " AAEC") (by rw [hall]; exact List.mem_cons_self)
  exact absurd hvalue (by decide +kernel)

end StructuredProxy.Metadata

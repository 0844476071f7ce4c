import StructuredProxy.Lib.Headers
import StructuredProxy.Transcode.Text

/-!
# Response metadata as response headers

`absorb` takes a metadata map apart and adds what may be passed on to the headers of the response. A map
that is taken apart names a key only with its first value, so the loop carries what to do with the key it
is on. `withInitial` puts the metadata of the response headers before that of a failure, in one map, with
a loop of the same kind. Absorbing the two maps one after the other and absorbing the one map made of
them come to the same.
-/

namespace StructuredProxy.Response

open Lib

abbrev Headers := HeaderMap Text Text

/-- A map taken apart: a name only with the first value of each key. -/
abbrev Stream := List (Option Text × Text)

def httpCodeKey : Text := str "x-http-code"

def isWithheld (name : Text) : Bool :=
  (str "grpc-").isPrefixOf name || (str "-bin").isSuffixOf name ||
    ([str "content-type", str "connection", str "keep-alive", str "proxy-connection", str "te",
      str "trailer", str "transfer-encoding", str "upgrade", str "content-length"]).contains name

inductive HttpCode where
  | absent
  | set (status : Nat)
  /-- Not a number in 200-599, or given more than once. -/
  | invalid
  deriving DecidableEq

def parseHttpCode (value : Text) : Option Nat :=
  if value.length ≠ 3 || !(value.all fun byte => 48 ≤ byte && byte ≤ 57) then none
  else
    let code := value.foldl (fun code digit => code * 10 + (digit - 48).toNat) 0
    if 200 ≤ code ∧ code ≤ 599 then some code else none

/-- The first valid value sets the status, a second one of any kind makes it invalid. -/
def recordHttpCode (slot : HttpCode) (value : Text) : HttpCode :=
  match slot, parseHttpCode value with
  | .absent, some status => .set status
  | _, _ => .invalid

structure UpstreamHeaders where
  headers : Headers := HeaderMap.empty
  httpCode : HttpCode := .absent

/-- What becomes of the values of the key the loop is on. -/
inductive Current where
  | forward (name : Text)
  | httpCode
  | drop

def absorbItem (deny : List Text) (state : UpstreamHeaders × Current) (item : Option Text × Text) :
    UpstreamHeaders × Current :=
  let (upstream, current) := state
  match item.1 with
  | some name =>
      if name = httpCodeKey then
        ({ upstream with httpCode := recordHttpCode upstream.httpCode item.2 }, .httpCode)
      else if !isWithheld name && !deny.contains name then
        ({ upstream with headers := upstream.headers.append name item.2 }, .forward name)
      else (upstream, .drop)
  | none =>
      match current with
      | .forward name =>
          ({ upstream with headers := upstream.headers.append name item.2 }, .forward name)
      | .httpCode =>
          ({ upstream with httpCode := recordHttpCode upstream.httpCode item.2 }, .httpCode)
      | .drop => (upstream, .drop)

def UpstreamHeaders.absorb (upstream : UpstreamHeaders) (metadata : Stream) (deny : List Text) :
    UpstreamHeaders :=
  (metadata.foldl (absorbItem deny) (upstream, .drop)).1

structure InvalidHttpCode where

def UpstreamHeaders.status (upstream : UpstreamHeaders) : Except InvalidHttpCode (Option Nat) :=
  match upstream.httpCode with
  | .absent => .ok none
  | .set status => .ok (some status)
  | .invalid => .error {}

def mergeItem (state : Headers × Option Text) (item : Option Text × Text) : Headers × Option Text :=
  let (merged, last) := state
  match item.1 with
  | some name => (merged.append name item.2, some name)
  | none =>
      match last with
      | some name => (merged.append name item.2, some name)
      | none => (merged, none)

def withInitial (initial : Headers) (own : Stream) : Headers :=
  (own.foldl mergeItem (initial, none)).1

/-! ### One key -/

def forwardable (deny : List Text) (name : Text) : Bool :=
  name ≠ httpCodeKey && !isWithheld name && !deny.contains name

def absorbKey (deny : List Text) (state : UpstreamHeaders × Current) (name : Text)
    (values : List Text) : UpstreamHeaders × Current :=
  if name = httpCodeKey then
    ({ state.1 with httpCode := values.foldl recordHttpCode state.1.httpCode }, .httpCode)
  else if !isWithheld name && !deny.contains name then
    ({ state.1 with headers := state.1.headers.appendAll name values }, .forward name)
  else (state.1, .drop)

theorem absorb_forward (deny : List Text) (name : Text) (rest : List Text) :
    ∀ upstream : UpstreamHeaders,
      (rest.map fun value => (none, value)).foldl (absorbItem deny) (upstream, .forward name) =
        ({ upstream with headers := upstream.headers.appendAll name rest }, .forward name) := by
  induction rest with
  | nil => intro upstream; rfl
  | cons value rest ih => intro upstream; exact ih _

theorem absorb_httpCode (deny : List Text) (rest : List Text) : ∀ upstream : UpstreamHeaders,
    (rest.map fun value => (none, value)).foldl (absorbItem deny) (upstream, .httpCode) =
      ({ upstream with httpCode := rest.foldl recordHttpCode upstream.httpCode }, .httpCode) := by
  induction rest with
  | nil => intro upstream; rfl
  | cons value rest ih => intro upstream; exact ih _

theorem absorb_drop (deny : List Text) (rest : List Text) (upstream : UpstreamHeaders) :
    (rest.map fun value => (none, value)).foldl (absorbItem deny) (upstream, .drop) =
      (upstream, .drop) := by
  induction rest with
  | nil => rfl
  | cons value rest ih => exact ih

theorem absorb_block (deny : List Text) (state : UpstreamHeaders × Current) (name value : Text)
    (rest : List Text) :
    ((some name, value) :: rest.map fun value => (none, value)).foldl (absorbItem deny) state =
      absorbKey deny state name (value :: rest) := by
  obtain ⟨upstream, current⟩ := state
  rw [List.foldl_cons]
  unfold absorbKey absorbItem
  dsimp only
  split
  · exact absorb_httpCode deny rest _
  · split
    · exact absorb_forward deny name rest _
    · exact absorb_drop deny rest _

def mergeKey (state : Headers × Option Text) (name : Text) (values : List Text) :
    Headers × Option Text :=
  (state.1.appendAll name values, some name)

theorem merge_block (state : Headers × Option Text) (name value : Text) (rest : List Text) :
    ((some name, value) :: rest.map fun value => (none, value)).foldl mergeItem state =
      mergeKey state name (value :: rest) := by
  have hrest : ∀ merged : Headers, (rest.map fun value => (none, value)).foldl mergeItem
      (merged, some name) = (merged.appendAll name rest, some name) := by
    induction rest with
    | nil => intro merged; rfl
    | cons value rest ih => intro merged; exact ih _
  exact hrest _

theorem getAll_absorbKey (deny : List Text) (name : Text) (state : UpstreamHeaders × Current)
    (key : Text) (values : List Text) :
    (absorbKey deny state key values).1.headers.getAll name =
      if key = name then
        state.1.headers.getAll name ++ if forwardable deny name = true then values else []
      else state.1.headers.getAll name := by
  unfold absorbKey
  by_cases hname : key = name
  · subst hname
    rw [if_pos rfl, forwardable]
    by_cases hcode : key = httpCodeKey
    · rw [if_pos hcode, if_neg (by simp [hcode]), List.append_nil]
    · rw [if_neg hcode, decide_eq_true hcode, Bool.true_and]
      by_cases hkept : (!isWithheld key && !deny.contains key) = true
      · rw [if_pos hkept, hkept, HeaderMap.getAll_appendAll, if_pos rfl, if_pos rfl]
      · rw [if_neg hkept, if_neg hkept, List.append_nil]
  · rw [if_neg hname]
    split
    · rfl
    · split
      · rw [HeaderMap.getAll_appendAll, if_neg (Ne.symm hname), List.append_nil]
      · rfl

theorem httpCode_absorbKey (deny : List Text) (state : UpstreamHeaders × Current) (key : Text)
    (values : List Text) : (absorbKey deny state key values).1.httpCode =
      if key = httpCodeKey then values.foldl recordHttpCode state.1.httpCode
      else state.1.httpCode := by
  unfold absorbKey
  split
  · rfl
  · split
    · rfl
    · rfl

/-- **What absorbing a map adds**, in whatever order it is taken apart: the values of each forwardable
key after those already there, and those of `x-http-code` to the status. -/
theorem absorb_yields {metadata : Headers} {stream : Stream} (h : metadata.Yields stream)
    (deny : List Text) (upstream : UpstreamHeaders) :
    (∀ name, (upstream.absorb stream deny).headers.getAll name = upstream.headers.getAll name ++
        if forwardable deny name = true then metadata.getAll name else []) ∧
      (upstream.absorb stream deny).httpCode =
        (metadata.getAll httpCodeKey).foldl recordHttpCode upstream.httpCode := by
  refine ⟨fun name => ?_, ?_⟩
  · exact h.foldl_view (fun state => state.1.headers.getAll name)
      (fun present values => present ++ if forwardable deny name = true then values else [])
      (absorb_block deny) (getAll_absorbKey deny name)
      (fun present => by rw [ite_self, List.append_nil]) (upstream, .drop)
  · exact h.foldl_view (fun state => state.1.httpCode)
      (fun slot values => values.foldl recordHttpCode slot)
      (absorb_block deny) (httpCode_absorbKey deny) (fun _ => rfl) (upstream, .drop)

theorem getAll_withInitial {own : Headers} {stream : Stream} (h : own.Yields stream)
    (initial : Headers) (name : Text) :
    (withInitial initial stream).getAll name = initial.getAll name ++ own.getAll name := by
  have hview : ∀ (state : Headers × Option Text) (key : Text) (values : List Text),
      (mergeKey state key values).1.getAll name =
        if key = name then state.1.getAll name ++ values else state.1.getAll name := by
    intro state key values
    rw [mergeKey, HeaderMap.getAll_appendAll]
    by_cases hname : key = name
    · rw [if_pos hname, if_pos hname.symm]
    · rw [if_neg hname, if_neg (Ne.symm hname), List.append_nil]
  exact h.foldl_view (fun state => state.1.getAll name) (fun present values => present ++ values)
    merge_block hview List.append_nil (initial, none)

/-! ### The status -/

def digitByte (digit : Fin 10) : UInt8 := UInt8.ofNat (48 + digit.val)

theorem digitByte_isDigit (digit : Fin 10) :
    (48 ≤ digitByte digit && digitByte digit ≤ 57) = true := by
  revert digit
  decide

theorem digitByte_value (digit : Fin 10) : (digitByte digit - 48).toNat = digit.val := by
  revert digit
  decide

theorem digitChar_byte (digit : Fin 10) : digit.val.digitChar.val.toUInt8 = digitByte digit := by
  revert digit
  decide

theorem decimal_three {a b c : Fin 10} (hpos : 0 < a.val) :
    decimal (a.val * 100 + b.val * 10 + c.val) = [digitByte a, digitByte b, digitByte c] := by
  have hlast : (a.val * 100 + b.val * 10 + c.val) / 10 = a.val * 10 + b.val := by omega
  have hmiddle : (a.val * 10 + b.val) / 10 = a.val := by omega
  have hc : (a.val * 100 + b.val * 10 + c.val) % 10 = c.val := by omega
  have hb : (a.val * 10 + b.val) % 10 = b.val := by omega
  rw [decimal, Nat.toDigits_of_base_le (by decide) (by omega), hlast, hc,
    Nat.toDigits_of_base_le (by decide) (by omega), hmiddle, hb, Nat.toDigits_of_lt_base a.isLt]
  simp only [List.map_cons, List.map_nil, digitChar_byte, List.cons_append, List.nil_append]

theorem parseHttpCode_digits (a b c : Fin 10) :
    parseHttpCode [digitByte a, digitByte b, digitByte c] =
      if 200 ≤ a.val * 100 + b.val * 10 + c.val ∧ a.val * 100 + b.val * 10 + c.val ≤ 599 then
        some (a.val * 100 + b.val * 10 + c.val)
      else none := by
  have hcode : ((0 * 10 + a.val) * 10 + b.val) * 10 + c.val = a.val * 100 + b.val * 10 + c.val := by
    omega
  simp only [parseHttpCode, List.length_cons, List.length_nil, List.all_cons, List.all_nil,
    digitByte_isDigit, List.foldl_cons, List.foldl_nil, digitByte_value, hcode]
  rfl

theorem exists_digit {byte : UInt8} (h : (48 ≤ byte && byte ≤ 57) = true) :
    ∃ digit : Fin 10, byte = digitByte digit := by
  simp only [Bool.and_eq_true, decide_eq_true_eq, UInt8.le_iff_toNat_le] at h
  simp at h
  refine ⟨⟨byte.toNat - 48, by omega⟩, ?_⟩
  apply UInt8.toNat_inj.mp
  rw [digitByte, UInt8.toNat_ofNat']
  dsimp only
  omega

theorem parseHttpCode_eq_some_iff {value : Text} {code : Nat} :
    parseHttpCode value = some code ↔ value = decimal code ∧ 200 ≤ code ∧ code ≤ 599 := by
  constructor
  · intro h
    have hform : value.length = 3 ∧ ∀ byte ∈ value, (48 ≤ byte && byte ≤ 57) = true := by
      unfold parseHttpCode at h
      split at h
      · cases h
      · next hform =>
          simpa only [Bool.or_eq_true, decide_eq_true_eq, Bool.not_eq_true', not_or, ne_eq, not_not,
            Bool.not_eq_false, List.all_eq_true] using hform
    obtain ⟨x, y, z, rfl⟩ := List.length_eq_three.mp hform.1
    obtain ⟨a, rfl⟩ := exists_digit (hform.2 x (by simp))
    obtain ⟨b, rfl⟩ := exists_digit (hform.2 y (by simp))
    obtain ⟨c, rfl⟩ := exists_digit (hform.2 z (by simp))
    rw [parseHttpCode_digits] at h
    split at h
    · next hrange =>
        obtain rfl := Option.some.inj h
        exact ⟨(decimal_three (by omega)).symm, hrange⟩
    · cases h
  · rintro ⟨rfl, hlow, hhigh⟩
    let a : Fin 10 := ⟨code / 100, by omega⟩
    let b : Fin 10 := ⟨code / 10 % 10, by omega⟩
    let c : Fin 10 := ⟨code % 10, by omega⟩
    have hcode : code = a.val * 100 + b.val * 10 + c.val := by
      dsimp only [a, b, c]
      omega
    have hpos : 0 < a.val := by
      dsimp only [a]
      omega
    rw [hcode, decimal_three hpos, parseHttpCode_digits, ← hcode, if_pos ⟨hlow, hhigh⟩]

theorem foldl_recordHttpCode_invalid (values : List Text) :
    values.foldl recordHttpCode .invalid = .invalid := by
  induction values with
  | nil => rfl
  | cons value values ih => exact ih

theorem status_iff {upstream : UpstreamHeaders} {values : List Text}
    (h : upstream.httpCode = values.foldl recordHttpCode .absent) :
    (∀ code, upstream.status = .ok (some code) ↔
        values = [decimal code] ∧ 200 ≤ code ∧ code ≤ 599) ∧
      (upstream.status = .ok none ↔ values = []) := by
  unfold UpstreamHeaders.status
  rw [h]
  cases values with
  | nil => simp
  | cons value rest =>
      rw [List.foldl_cons, recordHttpCode.eq_def]
      cases hparse : parseHttpCode value with
      | none =>
          dsimp only
          rw [foldl_recordHttpCode_invalid]
          refine ⟨fun code => ⟨fun hok => absurd hok (by simp), ?_⟩, by simp⟩
          rintro ⟨hvalues, hrange⟩
          rw [parseHttpCode_eq_some_iff.mpr ⟨(List.cons.inj hvalues).1, hrange⟩] at hparse
          exact absurd hparse (by simp)
      | some status =>
          obtain ⟨hvalue, hrange⟩ := parseHttpCode_eq_some_iff.mp hparse
          dsimp only
          cases rest with
          | nil =>
              refine ⟨fun code => ?_, by simp⟩
              rw [List.foldl_nil]
              dsimp only
              rw [Except.ok.injEq, Option.some.injEq]
              constructor
              · rintro rfl
                exact ⟨by rw [hvalue], hrange⟩
              · rintro ⟨hvalues, -⟩
                rw [hvalue] at hvalues
                exact decimal_injective (List.cons.inj hvalues).1
          | cons second rest =>
              have hsecond : recordHttpCode (.set status) second = .invalid := rfl
              rw [List.foldl_cons, hsecond, foldl_recordHttpCode_invalid]
              simp

/-- **Absorbing two maps and absorbing the one made of them come to the same**: for each forwardable key
its values in the first, then those in the second, nothing for any other key, and the status of the one
`x-http-code` they have together. -/
theorem absorb_withInitial {deny : List Text} {a b : Headers} {streamA streamB stream : Stream}
    (ha : a.Yields streamA) (hb : b.Yields streamB)
    (hmerged : (withInitial a streamB).Yields stream) :
    (∀ name, ((({} : UpstreamHeaders).absorb streamA deny).absorb streamB deny).headers.getAll name =
          (({} : UpstreamHeaders).absorb stream deny).headers.getAll name ∧
        (({} : UpstreamHeaders).absorb stream deny).headers.getAll name =
          if name = httpCodeKey ∨ isWithheld name = true ∨ name ∈ deny then []
          else a.getAll name ++ b.getAll name) ∧
      ((({} : UpstreamHeaders).absorb streamA deny).absorb streamB deny).status =
        (({} : UpstreamHeaders).absorb stream deny).status ∧
      (∀ code, (({} : UpstreamHeaders).absorb stream deny).status = .ok (some code) ↔
        a.getAll httpCodeKey ++ b.getAll httpCodeKey = [decimal code] ∧ 200 ≤ code ∧ code ≤ 599) ∧
      ((({} : UpstreamHeaders).absorb stream deny).status = .ok none ↔
        a.getAll httpCodeKey ++ b.getAll httpCodeKey = []) := by
  obtain ⟨hfirst, hfirstCode⟩ := absorb_yields ha deny {}
  obtain ⟨htwice, htwiceCode⟩ := absorb_yields hb deny (({} : UpstreamHeaders).absorb streamA deny)
  obtain ⟨honce, honceCode⟩ := absorb_yields hmerged deny {}
  have hempty : ∀ name, ({} : UpstreamHeaders).headers.getAll name = [] := fun _ => rfl
  have hforwardable : ∀ name, (forwardable deny name = true) ↔
      ¬(name = httpCodeKey ∨ isWithheld name = true ∨ name ∈ deny) := by
    intro name
    simp [forwardable, and_assoc]
  have hcode : (({} : UpstreamHeaders).absorb stream deny).httpCode =
      (a.getAll httpCodeKey ++ b.getAll httpCodeKey).foldl recordHttpCode .absent := by
    rw [honceCode, getAll_withInitial hb]
  have hsame : ((({} : UpstreamHeaders).absorb streamA deny).absorb streamB deny).httpCode =
      (({} : UpstreamHeaders).absorb stream deny).httpCode := by
    rw [htwiceCode, hfirstCode, hcode, List.foldl_append]
  refine ⟨fun name => ?_, ?_, status_iff hcode⟩
  · rw [htwice, hfirst, honce, hempty, getAll_withInitial hb, List.nil_append]
    by_cases hname : name = httpCodeKey ∨ isWithheld name = true ∨ name ∈ deny
    · have hnot : ¬ forwardable deny name = true := fun h => (hforwardable name).mp h hname
      rw [if_neg hnot, if_neg hnot, if_neg hnot, if_pos hname]
      exact ⟨rfl, rfl⟩
    · have hkept := (hforwardable name).mpr hname
      rw [if_pos hkept, if_pos hkept, if_pos hkept, if_neg hname]
      exact ⟨rfl, rfl⟩
  · rw [UpstreamHeaders.status, hsame, UpstreamHeaders.status]

def note : Text := str "x-note"
def grpcTrace : Text := str "grpc-trace"

def initialMetadata : Headers :=
  ⟨[(note, str "a"), (httpCodeKey, str "404"), (note, str "b")]⟩

def failureMetadata : Headers := ⟨[(grpcTrace, str "t"), (note, str "c")]⟩

def initialStream : Stream :=
  [(some note, str "a"), (none, str "b"), (some httpCodeKey, str "404")]

def failureStream : Stream := [(some grpcTrace, str "t"), (some note, str "c")]

def mergedStream : Stream :=
  [(some httpCodeKey, str "404"), (some note, str "a"), (none, str "b"), (none, str "c"),
    (some grpcTrace, str "t")]

theorem initialMetadata_yields : initialMetadata.Yields initialStream := by
  refine ⟨[note, httpCodeKey], by decide +kernel, fun name => ?_, by decide +kernel⟩
  simp only [initialMetadata, HeaderMap.containsKey, List.any_cons, List.any_nil, Bool.or_eq_true,
    decide_eq_true_eq, List.mem_cons, List.not_mem_nil, or_false, Bool.false_eq_true,
    @eq_comm _ name]
  tauto

theorem failureMetadata_yields : failureMetadata.Yields failureStream := by
  refine ⟨[grpcTrace, note], by decide +kernel, fun name => ?_, by decide +kernel⟩
  simp only [failureMetadata, HeaderMap.containsKey, List.any_cons, List.any_nil, Bool.or_eq_true,
    decide_eq_true_eq, List.mem_cons, List.not_mem_nil, or_false, Bool.false_eq_true,
    @eq_comm _ name]

theorem merged_yields : (withInitial initialMetadata failureStream).Yields mergedStream := by
  have hentries : withInitial initialMetadata failureStream =
      ⟨[(note, str "a"), (httpCodeKey, str "404"), (note, str "b"), (grpcTrace, str "t"),
        (note, str "c")]⟩ := by
    decide +kernel
  refine ⟨[httpCodeKey, note, grpcTrace], by decide +kernel, fun name => ?_, by decide +kernel⟩
  rw [hentries]
  simp only [HeaderMap.containsKey, List.any_cons, List.any_nil, Bool.or_eq_true,
    decide_eq_true_eq, List.mem_cons, List.not_mem_nil, or_false, Bool.false_eq_true,
    @eq_comm _ name]
  tauto

theorem failure_absorbed :
    (({} : UpstreamHeaders).absorb mergedStream []).headers.getAll note =
        [str "a", str "b", str "c"] ∧
      (({} : UpstreamHeaders).absorb mergedStream []).status = .ok (some 404) := by
  obtain ⟨hheaders, -, hstatus, -⟩ :=
    @absorb_withInitial [] _ _ _ _ _ initialMetadata_yields failureMetadata_yields merged_yields
  refine ⟨?_, (hstatus 404).mpr ⟨by decide +kernel, by decide, by decide⟩⟩
  rw [(hheaders note).2]
  decide +kernel

end StructuredProxy.Response

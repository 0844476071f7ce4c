import StructuredProxy.Metadata.Forwarded

/-!
# Trace context in metadata

The upstream is to get one well-formed `traceparent`, and the request's `tracestate` exactly when the
`traceparent` is the request's own. A new `traceparent` is always well-formed. The request's own one is
judged more generously than the format is written: upper-case digits are let through, and a tab in the
fields a later version may add makes the header valid but not fit for metadata, so that nothing is sent
for it while its `tracestate` is.
-/

namespace StructuredProxy.Metadata

open Lib

def isLowerHex (byte : UInt8) : Bool := (48 ≤ byte && byte ≤ 57) || (97 ≤ byte && byte ≤ 102)

def LowerHex (length : Nat) (text : Text) : Prop :=
  text.length = length ∧ ∀ byte ∈ text, isLowerHex byte = true

/-- The `traceparent` of W3C Trace Context: version, trace id, parent id and flags, and more fields only
in a later version. -/
def WellFormed (tp : Text) : Prop :=
  ∃ version traceId parentId flags more,
    tp.splitOn dash = version :: traceId :: parentId :: flags :: more ∧
      LowerHex 2 version ∧ version ≠ str "ff" ∧ (version = str "00" → more = []) ∧
      LowerHex 32 traceId ∧ (∃ byte ∈ traceId, byte ≠ zero) ∧
      LowerHex 16 parentId ∧ (∃ byte ∈ parentId, byte ≠ zero) ∧ LowerHex 2 flags

def isUpperHex (byte : UInt8) : Bool := 65 ≤ byte && byte ≤ 70

def LowerFields (tp : Text) : Prop :=
  ∀ field ∈ (tp.splitOn dash).take 4, ∀ byte ∈ field, isUpperHex byte = false

theorem isAsciiHexdigit_iff (byte : UInt8) :
    isLowerHex byte = true ↔ isAsciiHexdigit byte = true ∧ isUpperHex byte = false := by
  simp only [isLowerHex, isAsciiHexdigit, isUpperHex, Bool.or_eq_true, Bool.and_eq_true,
    Bool.and_eq_false_iff, decide_eq_true_eq, decide_eq_false_iff_not, UInt8.le_iff_toNat_le]
  simp
  omega

theorem isHex_iff {length : Nat} {text : Text} (hlower : ∀ byte ∈ text, isUpperHex byte = false) :
    isHex length text = true ↔ LowerHex length text := by
  rw [isHex, Bool.and_eq_true, decide_eq_true_eq, List.all_eq_true, LowerHex]
  apply and_congr_right
  intro _
  apply forall₂_congr
  intro byte hbyte
  rw [isAsciiHexdigit_iff]
  simp [hlower byte hbyte]

theorem toAsciiLowercase_of_isLowerHex {byte : UInt8} (h : isLowerHex byte = true) :
    toAsciiLowercase byte = byte := by
  simp only [isLowerHex, Bool.or_eq_true, Bool.and_eq_true, decide_eq_true_eq,
    UInt8.le_iff_toNat_le] at h
  rw [toAsciiLowercase, if_neg]
  simp only [Bool.and_eq_true, decide_eq_true_eq, UInt8.le_iff_toNat_le]
  simp at h ⊢
  omega

theorem eqIgnoreAsciiCase_ff {version : Text} (h : ∀ byte ∈ version, isLowerHex byte = true) :
    eqIgnoreAsciiCase version (str "ff") = true ↔ version = str "ff" := by
  have hsame : version.map toAsciiLowercase = version := by
    conv_rhs => rw [← List.map_id version]
    apply List.map_congr_left
    intro byte hbyte
    exact toAsciiLowercase_of_isLowerHex (h byte hbyte)
  have hff : (str "ff").map toAsciiLowercase = str "ff" := by decide +kernel
  rw [eqIgnoreAsciiCase, decide_eq_true_eq, hsame, hff]

theorem LowerHex.notUpper {length : Nat} {text : Text} (h : LowerHex length text) :
    ∀ byte ∈ text, isUpperHex byte = false :=
  fun byte hbyte => ((isAsciiHexdigit_iff byte).mp (h.2 byte hbyte)).2

theorem wellFormed_iff {tp : Text} :
    WellFormed tp ↔ isValidTraceparent tp = true ∧ LowerFields tp := by
  unfold WellFormed isValidTraceparent LowerFields
  rcases tp.splitOn dash with
    _ | ⟨version, _ | ⟨traceId, _ | ⟨parentId, _ | ⟨flags, more⟩⟩⟩⟩
  · simp
  · simp
  · simp
  · simp
  · dsimp only
    rw [List.take_succ_cons, List.take_succ_cons, List.take_succ_cons, List.take_succ_cons,
      List.take_zero]
    simp only [Bool.and_eq_true, Bool.not_eq_true', Bool.and_eq_false_iff, decide_eq_false_iff_not,
      Bool.not_eq_false', List.isEmpty_iff, List.any_eq_true, decide_eq_true_eq, List.cons.injEq,
      List.forall_mem_cons]
    constructor
    · rintro ⟨_, _, _, _, _, ⟨rfl, rfl, rfl, rfl, rfl⟩, hversion, hff, hzero, htrace, htraceZero,
        hparent, hparentZero, hflags⟩
      refine ⟨⟨⟨⟨⟨⟨⟨⟨?_, ?_⟩, ?_⟩, ?_⟩, ?_⟩, ?_⟩, htraceZero⟩, hparentZero⟩, hversion.notUpper,
        htrace.notUpper, hparent.notUpper, hflags.notUpper, by simp⟩
      · exact Decidable.imp_iff_not_or.mp hzero
      · exact (isHex_iff hversion.notUpper).mpr hversion
      · rw [← Bool.not_eq_true, eqIgnoreAsciiCase_ff hversion.2]
        exact hff
      · exact (isHex_iff htrace.notUpper).mpr htrace
      · exact (isHex_iff hparent.notUpper).mpr hparent
      · exact (isHex_iff hflags.notUpper).mpr hflags
    · rintro ⟨⟨⟨⟨⟨⟨⟨⟨hzero, hversion⟩, hff⟩, htrace⟩, hparent⟩, hflags⟩, htraceZero⟩, hparentZero⟩,
        hversionLower, htraceLower, hparentLower, hflagsLower, -⟩
      have hversion := (isHex_iff hversionLower).mp hversion
      refine ⟨version, traceId, parentId, flags, more, ⟨rfl, rfl, rfl, rfl, rfl⟩, hversion, ?_,
        Decidable.imp_iff_not_or.mpr hzero, (isHex_iff htraceLower).mp htrace, htraceZero,
        (isHex_iff hparentLower).mp hparent, hparentZero, (isHex_iff hflagsLower).mp hflags⟩
      rw [Ne, ← eqIgnoreAsciiCase_ff hversion.2, Bool.not_eq_true]
      exact hff

/-! ### A new `traceparent` -/

theorem hexDigit_spec (n : Fin 16) : isLowerHex ((str "0123456789abcdef").getD n.val zero) = true ∧
    ((str "0123456789abcdef").getD n.val zero = zero → n.val = 0) := by
  revert n
  decide +kernel

theorem lowerHex_writeHex (value : BitVec 64) : LowerHex 16 (writeHex value) := by
  constructor
  · rw [writeHex, List.length_map, List.length_range]
  · intro byte hbyte
    obtain ⟨at_, -, rfl⟩ := List.mem_map.mp hbyte
    exact (hexDigit_spec ⟨_, Nat.mod_lt _ (by decide)⟩).1

theorem mod_pow_eq_zero {v : Nat} : ∀ {n : Nat}, (∀ k < n, v / 16 ^ k % 16 = 0) → v % 16 ^ n = 0 := by
  intro n
  induction n with
  | zero => intro _; exact Nat.mod_one v
  | succ n ih =>
      intro h
      rw [Nat.mod_pow_succ, ih fun k hk => h k (Nat.lt_succ_of_lt hk), h n (Nat.lt_succ_self n),
        Nat.mul_zero]

theorem exists_ne_zero_of_writeHex {value : BitVec 64} (h : value ≠ 0) :
    ∃ byte ∈ writeHex value, byte ≠ zero := by
  by_contra hnone
  push Not at hnone
  apply h
  apply BitVec.eq_of_toNat_eq
  have hdigits : ∀ k < 16, value.toNat / 16 ^ k % 16 = 0 := by
    intro k hk
    have hmem : (str "0123456789abcdef").getD
        (value.toNat / 2 ^ (60 - 4 * (15 - k)) % 16) zero ∈ writeHex value :=
      List.mem_map_of_mem (List.mem_range.mpr (by omega))
    have hzero := (hexDigit_spec ⟨_, Nat.mod_lt _ (by decide)⟩).2 (hnone _ hmem)
    have hpow : 2 ^ (60 - 4 * (15 - k)) = 16 ^ k := by
      rw [show 60 - 4 * (15 - k) = 4 * k by omega, Nat.pow_mul]
    rwa [hpow] at hzero
  have hlt : value.toNat < 16 ^ 16 := value.isLt
  have hmod := mod_pow_eq_zero hdigits
  rw [Nat.mod_eq_of_lt hlt] at hmod
  exact hmod

theorem dash_notMem {length : Nat} {text : Text} (h : LowerHex length text) : dash ∉ text := by
  intro hmem
  exact absurd (h.2 dash hmem) (by decide)

theorem splitOn_of_notMem {text : Text} (h : dash ∉ text) : text.splitOn dash = [text] :=
  splitOn_of_splitOnce_none (splitOnce_eq_none_iff.mpr h)

theorem wellFormed_traceparentOf (high low span : BitVec 64) :
    WellFormed (traceparentOf high low span) := by
  unfold traceparentOf
  dsimp only
  generalize hlow : (if high = 0 ∧ low = 0 then 1 else low) = low'
  generalize hspan : (if span = 0 then 1 else span) = span'
  have hversion : LowerHex 2 (str "00") := by
    constructor
    · decide +kernel
    · decide +kernel
  have hflags : LowerHex 2 (str "01") := by
    constructor
    · decide +kernel
    · decide +kernel
  have htrace : LowerHex 32 (writeHex high ++ writeHex low') := by
    constructor
    · rw [List.length_append, (lowerHex_writeHex high).1, (lowerHex_writeHex low').1]
    · intro byte hbyte
      obtain hbyte | hbyte := List.mem_append.mp hbyte
      · exact (lowerHex_writeHex high).2 byte hbyte
      · exact (lowerHex_writeHex low').2 byte hbyte
  have htext : str "00-" ++ writeHex high ++ writeHex low' ++ str "-" ++ writeHex span' ++ str "-01" =
      str "00" ++ dash :: ((writeHex high ++ writeHex low') ++
        dash :: (writeHex span' ++ dash :: str "01")) := by
    rw [show str "00-" = str "00" ++ [dash] by decide +kernel,
      show str "-01" = dash :: str "01" by decide +kernel, show str "-" = [dash] by decide +kernel]
    simp only [List.append_assoc, List.cons_append, List.nil_append]
  refine ⟨str "00", writeHex high ++ writeHex low', writeHex span', str "01", [], ?_, hversion,
    by decide +kernel, fun _ => rfl, htrace, ?_, lowerHex_writeHex span', ?_, hflags⟩
  · rw [htext, splitOn_append_cons, splitOn_append_cons, splitOn_append_cons,
      splitOn_of_notMem (dash_notMem hversion), splitOn_of_notMem (dash_notMem htrace),
      splitOn_of_notMem (dash_notMem (lowerHex_writeHex span')), splitOn_of_notMem (dash_notMem hflags)]
    rfl
  · by_cases hhigh : high = 0
    · have hne : low' ≠ 0 := by
        rw [← hlow]
        by_cases hzero : low = 0
        · rw [if_pos ⟨hhigh, hzero⟩]
          decide
        · rw [if_neg fun hboth => hzero hboth.2]
          exact hzero
      obtain ⟨byte, hbyte, hdigit⟩ := exists_ne_zero_of_writeHex hne
      exact ⟨byte, List.mem_append_right _ hbyte, hdigit⟩
    · obtain ⟨byte, hbyte, hdigit⟩ := exists_ne_zero_of_writeHex hhigh
      exact ⟨byte, List.mem_append_left _ hbyte, hdigit⟩
  · apply exists_ne_zero_of_writeHex
    rw [← hspan]
    by_cases hzero : span = 0
    · rw [if_pos hzero]
      decide
    · rw [if_neg hzero]
      exact hzero

theorem toStr_traceparentOf (high low span : BitVec 64) :
    toStr (traceparentOf high low span) = some (traceparentOf high low span) := by
  have hvisible : ∀ byte : UInt8, isLowerHex byte = true →
      ((0x20 ≤ byte && byte < 0x7f) || byte = 9) = true := by
    intro byte h
    simp only [isLowerHex, Bool.or_eq_true, Bool.and_eq_true, decide_eq_true_eq,
      UInt8.le_iff_toNat_le, UInt8.lt_iff_toNat_lt] at h ⊢
    simp at h ⊢
    omega
  have hword : ∀ value : BitVec 64, ∀ byte ∈ writeHex value,
      ((0x20 ≤ byte && byte < 0x7f) || byte = 9) = true :=
    fun value byte hbyte => hvisible byte ((lowerHex_writeHex value).2 byte hbyte)
  rw [toStr, if_pos]
  unfold traceparentOf
  simp only [List.all_append, Bool.and_eq_true]
  refine ⟨⟨⟨⟨⟨?_, ?_⟩, ?_⟩, ?_⟩, ?_⟩, ?_⟩
  · decide +kernel
  · exact List.all_eq_true.mpr (hword _)
  · exact List.all_eq_true.mpr (hword _)
  · decide +kernel
  · exact List.all_eq_true.mpr (hword _)
  · decide +kernel

def Random.available (random : Random) : Bool := random.thread.isSome || random.system.isSome

theorem randomId_isSome {random : Random} (h : random.available = true) :
    ∃ id next, random.randomId = some (id, next) ∧ next.available = true := by
  have hseed : (random.thread.or random.system).isSome = true := by
    rw [Option.isSome_or]
    exact h
  obtain ⟨seed, hseed⟩ := Option.isSome_iff_exists.mp hseed
  unfold Random.randomId
  rw [hseed]
  exact ⟨_, _, rfl, rfl⟩

theorem newTraceparent_isSome {random : Random} (h : random.available = true) :
    (newTraceparent random).isSome = true := by
  obtain ⟨high, second, hhigh, hsecond⟩ := randomId_isSome h
  obtain ⟨low, third, hlow, hthird⟩ := randomId_isSome hsecond
  obtain ⟨span, last, hspan, -⟩ := randomId_isSome hthird
  unfold newTraceparent
  rw [hhigh, Option.bind_some]
  dsimp only
  rw [hlow, Option.bind_some]
  dsimp only
  rw [hspan]
  rfl

theorem exists_of_newTraceparent {random : Random} {tp : Text} (h : newTraceparent random = some tp) :
    ∃ high low span, tp = traceparentOf high low span := by
  obtain ⟨⟨high, second⟩, -, h⟩ := Option.bind_eq_some_iff.mp h
  obtain ⟨⟨low, third⟩, -, h⟩ := Option.bind_eq_some_iff.mp h
  obtain ⟨⟨span, last⟩, -, h⟩ := Option.map_eq_some_iff.mp h
  exact ⟨high, low, span, h.symm⟩

/-! ### The metadata of a request -/

def OwnForwarded (headers metadata : Headers) : Prop :=
  ∃ tp, (headers.getAll traceparent).head? = some tp ∧ metadata.getAll traceparent = [tp]

/-- One well-formed `traceparent`, and the request's `tracestate` with its own one only. -/
structure Traced (random : Random) (headers metadata : Headers) : Prop where
  atMostOne : (metadata.getAll traceparent).length ≤ 1
  exactlyOne : random.available = true → (metadata.getAll traceparent).length = 1
  wellFormed : ∀ tp ∈ metadata.getAll traceparent, WellFormed tp
  own : OwnForwarded headers metadata →
    metadata.getAll tracestate = (headers.getAll tracestate).filter isAsciiValue
  other : ¬ OwnForwarded headers metadata → metadata.getAll tracestate = []

def PlainTraceparent (headers : Headers) : Prop :=
  ∀ tp, (headers.getAll traceparent).head? = some tp → (toStr tp).isSome = true →
    isValidTraceparent tp = true → isAsciiValue tp = true ∧ LowerFields tp

theorem toStr_eq_some_iff {value text : Text} :
    toStr value = some text ↔ text = value ∧ (toStr value).isSome = true := by
  unfold toStr
  split
  · simp [eq_comm]
  · simp

theorem validTraceparent_eq_some_iff {headers : Headers} {tp : Text} :
    validTraceparent headers = some tp ↔ (headers.getAll traceparent).head? = some tp ∧
      (toStr tp).isSome = true ∧ isValidTraceparent tp = true := by
  rw [validTraceparent, Option.filter_eq_some_iff, Option.bind_eq_some_iff]
  constructor
  · rintro ⟨⟨value, hhead, hstr⟩, hvalid⟩
    obtain ⟨rfl, hsome⟩ := toStr_eq_some_iff.mp hstr
    exact ⟨hhead, hsome, hvalid⟩
  · rintro ⟨hhead, hsome, hvalid⟩
    exact ⟨⟨tp, hhead, toStr_eq_some_iff.mpr ⟨rfl, hsome⟩⟩, hvalid⟩

variable {random : Random} {headers metadata : Headers}

theorem injectTraceContext_own {tp : Text} (htp : validTraceparent headers = some tp)
    (hparent : metadata.getAll traceparent = []) (hstate : metadata.getAll tracestate = []) :
    (injectTraceContext random headers metadata).getAll traceparent =
        (if isAsciiValue tp = true then [tp] else []) ∧
      (injectTraceContext random headers metadata).getAll tracestate =
        (headers.getAll tracestate).filter isAsciiValue := by
  have hne : traceparent ≠ tracestate := by decide +kernel
  unfold injectTraceContext
  rw [htp]
  dsimp only
  rw [getAll_foldl_appendAscii, getAll_foldl_appendAscii, if_neg hne, if_pos rfl, List.append_nil,
    insertAscii]
  split
  · rw [HeaderMap.getAll_insert_self, HeaderMap.getAll_insert_of_ne hne.symm, hstate, List.nil_append]
    exact ⟨rfl, rfl⟩
  · rw [hparent, hstate, List.nil_append]
    exact ⟨rfl, rfl⟩

theorem injectTraceContext_new (hnone : validTraceparent headers = none)
    (hparent : metadata.getAll traceparent = []) (hstate : metadata.getAll tracestate = []) :
    (injectTraceContext random headers metadata).getAll traceparent =
        (newTraceparent random).toList ∧
      (injectTraceContext random headers metadata).getAll tracestate = [] := by
  have hne : tracestate ≠ traceparent := by decide +kernel
  unfold injectTraceContext
  rw [hnone]
  dsimp only
  cases newTraceparent random with
  | none => exact ⟨hparent, hstate⟩
  | some tp =>
      refine ⟨HeaderMap.getAll_insert_self, ?_⟩
      dsimp only
      rw [HeaderMap.getAll_insert_of_ne hne, hstate]

theorem traced_new (hnone : validTraceparent headers = none)
    (hparent : metadata.getAll traceparent = []) (hstate : metadata.getAll tracestate = []) :
    Traced random headers (injectTraceContext random headers metadata) := by
  obtain ⟨hparents, hstates⟩ := @injectTraceContext_new random headers metadata hnone hparent hstate
  constructor
  · rw [hparents]
    exact Option.length_toList_le
  · intro havailable
    obtain ⟨tp, htp⟩ := Option.isSome_iff_exists.mp (newTraceparent_isSome havailable)
    rw [hparents, htp]
    rfl
  · intro tp htp
    rw [hparents, Option.mem_toList] at htp
    obtain ⟨high, low, span, rfl⟩ := exists_of_newTraceparent htp
    exact wellFormed_traceparentOf high low span
  · rintro ⟨tp, hhead, hown⟩
    rw [hparents] at hown
    have htp : newTraceparent random = some tp :=
      Option.mem_toList.mp (by rw [hown]; exact List.mem_cons_self)
    obtain ⟨high, low, span, rfl⟩ := exists_of_newTraceparent htp
    have hvalid := (wellFormed_iff.mp (wellFormed_traceparentOf high low span)).1
    have hsome : (toStr (traceparentOf high low span)).isSome = true := by
      rw [toStr_traceparentOf]
      rfl
    rw [validTraceparent_eq_some_iff.mpr ⟨hhead, hsome, hvalid⟩] at hnone
    exact absurd hnone (by simp)
  · exact fun _ => hstates

theorem traced_own {tp : Text} (htp : validTraceparent headers = some tp)
    (hascii : isAsciiValue tp = true) (hlower : LowerFields tp)
    (hparent : metadata.getAll traceparent = []) (hstate : metadata.getAll tracestate = []) :
    Traced random headers (injectTraceContext random headers metadata) := by
  obtain ⟨hparents, hstates⟩ := @injectTraceContext_own random headers metadata tp htp hparent hstate
  obtain ⟨hhead, -, hvalid⟩ := validTraceparent_eq_some_iff.mp htp
  rw [if_pos hascii] at hparents
  constructor
  · rw [hparents]
    exact Nat.le_refl 1
  · intro _
    rw [hparents]
    rfl
  · intro other hother
    rw [hparents] at hother
    rw [List.mem_singleton.mp hother]
    exact wellFormed_iff.mpr ⟨hvalid, hlower⟩
  · exact fun _ => hstates
  · intro hnot
    exact absurd ⟨tp, hhead, hparents⟩ hnot

theorem getAll_traceContext {ε : Type} {check : Text → Text → Except ε Unit} {source : Source}
    {names : List Text} {out : Headers}
    (hout : forwardAll check source headers names HeaderMap.empty = .ok out) {name : Text}
    (htrace : isTraceContext name = true) : out.getAll name = [] := by
  rw [(After.empty.run hout).values name, if_neg]
  rintro ⟨hpasses, -⟩
  rw [passes, htrace] at hpasses
  exact absurd hpasses (by simp)

/-- **One well-formed `traceparent`, and no `tracestate` without its own**, for every list of names,
exactly when a valid `traceparent` of the request has no tab and no digit in upper case. -/
theorem traced_iff {ε : Type} {source : Source} {forwarded : Forwarded} :
    (∀ (check : Text → Text → Except ε Unit) (random : Random) (metadata : Headers),
      forward check random source headers forwarded = .ok metadata →
        Traced random headers metadata) ↔ PlainTraceparent headers := by
  have hparent : isTraceContext traceparent = true := by decide +kernel
  have hstate : isTraceContext tracestate = true := by decide +kernel
  constructor
  · intro htraced tp hhead hsome hvalid
    have htp := validTraceparent_eq_some_iff.mpr ⟨hhead, hsome, hvalid⟩
    -- a check that accepts everything and a seeded generator
    obtain ⟨out, hout⟩ := @forwardAll_isOk ε (fun _ _ => .ok ()) source headers forwarded.names
      HeaderMap.empty (fun _ _ _ _ _ => rfl)
    have hmetadata : forward (fun _ _ => (.ok () : Except ε Unit)) ⟨some 0, none⟩ source headers
        forwarded = .ok (injectTraceContext ⟨some 0, none⟩ headers out) := by
      rw [forward, hout]
      rfl
    have hall := htraced _ _ _ hmetadata
    have hone := hall.exactlyOne rfl
    have hwell := hall.wellFormed
    rw [(injectTraceContext_own htp (getAll_traceContext hout hparent)
      (getAll_traceContext hout hstate)).1] at hone hwell
    by_cases hascii : isAsciiValue tp = true
    · rw [if_pos hascii] at hwell
      exact ⟨hascii, (wellFormed_iff.mp (hwell tp List.mem_cons_self)).2⟩
    · rw [if_neg hascii] at hone
      exact absurd hone (by decide)
  · intro hplain check random metadata hmetadata
    unfold forward at hmetadata
    cases hout : forwardAll check source headers forwarded.names HeaderMap.empty with
    | error error =>
        rw [hout] at hmetadata
        exact absurd hmetadata (by simp [Except.map])
    | ok out =>
        rw [hout] at hmetadata
        have hinject : injectTraceContext random headers out = metadata := by
          simpa [Except.map] using hmetadata
        rw [← hinject]
        have houtParent := getAll_traceContext hout hparent
        have houtState := getAll_traceContext hout hstate
        cases htp : validTraceparent headers with
        | none => exact traced_new htp houtParent houtState
        | some tp =>
            obtain ⟨hhead, hsome, hvalid⟩ := validTraceparent_eq_some_iff.mp htp
            obtain ⟨hascii, hlower⟩ := hplain tp hhead hsome hvalid
            exact traced_own htp hascii hlower houtParent houtState

def tabbedTraceparent : Text :=
  str "01-0af7651916cd43dd8448eb211c80319c-b7ad6b7169203331-01-a\tb"

def tabbedHeaders : Headers :=
  ⟨[(traceparent, tabbedTraceparent), (tracestate, str "vendor=value")]⟩

/-- The `tracestate` is sent without any `traceparent`. -/
theorem tabbed_not_traced :
    forwardedMetadata ⟨some 7, none⟩ tabbedHeaders (.listed some []) false =
        .ok ⟨[(tracestate, str "vendor=value")]⟩ ∧
      ¬ Traced ⟨some 7, none⟩ tabbedHeaders ⟨[(tracestate, str "vendor=value")]⟩ := by
  constructor
  · have htp : validTraceparent tabbedHeaders = some tabbedTraceparent := by decide +kernel
    have hinject : injectTraceContext ⟨some 7, none⟩ tabbedHeaders HeaderMap.empty =
        ⟨[(tracestate, str "vendor=value")]⟩ := by
      unfold injectTraceContext
      rw [htp]
      decide +kernel
    rw [← hinject]
    rfl
  · intro htraced
    exact absurd (htraced.exactlyOne rfl) (by decide +kernel)

end StructuredProxy.Metadata

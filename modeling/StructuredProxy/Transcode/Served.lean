import StructuredProxy.Transcode.Table
import Mathlib.Data.List.Basic
import Mathlib.Data.List.Nodup

/-!
# What a table serves

The scan of `PathTable::choose` read off its early returns and its 64-bit word: the first admitted
binding of the method or of every method serves, a HEAD falls back to the first admitted GET, and a
table that admits bindings but serves none of them answers with their methods, each listed once.
-/

namespace StructuredProxy

/-- The binding answers `method` itself: it is bound to it, or to every method. -/
def Binding.serves (method : Method) (binding : Binding) : Bool :=
  binding.entry.httpMethod = .any || binding.entry.httpMethod = .one method

def Binding.isGet (binding : Binding) : Bool := binding.entry.httpMethod = .one Method.GET

namespace PathTable

variable (table : PathTable) (method : Method) (answers : Binding → Bool)

def served : Option Nat :=
  (table.bindings.findIdx? fun binding => answers binding && binding.serves method).or
    (if method = Method.HEAD then
      table.bindings.findIdx? fun binding => answers binding && binding.isGet
    else none)

def admitsAt (index : Nat) : Bool := (table.bindings[index]?).any answers

theorem getLsbD_mark (word : BitVec 64) {i : Nat} (hi : i < 64) (j : Nat) :
    (word ||| 1#64 <<< i).getLsbD j = (word.getLsbD j || decide (i = j)) := by
  rw [← BitVec.twoPow_eq, BitVec.getLsbD_or, BitVec.getLsbD_twoPow]
  simp [hi]

theorem marked_eq_getLsbD (word : BitVec 64) {i : Nat} (hi : i < 64) :
    decide (word &&& 1#64 <<< i ≠ 0#64) = word.getLsbD i := by
  rw [← BitVec.twoPow_eq, BitVec.and_twoPow]
  cases word.getLsbD i with
  | false => simp
  | true =>
      have hne : BitVec.twoPow 64 i ≠ 0#64 := by
        intro hzero
        have hbit := congrArg (fun word => word.getLsbD i) hzero
        simp [hi] at hbit
      simpa using hne

structure Scanned (bindings : List Binding) (index : Nat) (before after : Scan) : Prop where
  head : after.head = before.head.or (if method = Method.HEAD then
    (bindings.findIdx? fun binding => answers binding && binding.isGet).map (index + ·) else none)
  answered : after.answered = (before.answered || bindings.any answers)
  admitted : ∀ i < 64, after.admitted.getLsbD i =
    (before.admitted.getLsbD i || (decide (index ≤ i) && (bindings[i - index]?).any answers))

variable {method answers}

theorem scan_of_serves {state : Scan} {binding : Binding} {index : Nat}
    (hadmits : answers binding = true) (hserves : binding.serves method = true) :
    scan method answers state (binding, index) = .error index := by
  rw [Binding.serves, Bool.or_eq_true, decide_eq_true_eq, decide_eq_true_eq] at hserves
  rcases hserves with hany | hone
  · simp [scan, hadmits, hany]
  · simp [scan, hadmits, hone]

theorem admitted_mark (state : Scan) (index : Nat) {binding : Binding}
    (hadmits : answers binding = true) :
    ∀ i < 64, (state.mark index).admitted.getLsbD i =
      (state.admitted.getLsbD i ||
        (decide (index ≤ i) && ([binding][i - index]?).any answers)) := by
  intro i hi
  have hlast : (decide (index ≤ i) && ([binding][i - index]?).any answers) = decide (index = i) := by
    rcases Nat.lt_trichotomy index i with hlt | heq | hgt
    · obtain ⟨k, hk⟩ : ∃ k, i - index = k + 1 := ⟨i - index - 1, by omega⟩
      simp [hk, Nat.ne_of_lt hlt]
    · simp [heq, hadmits]
    · simp [Nat.not_le.mpr hgt, Nat.ne_of_gt hgt]
  rw [hlast, Scan.mark]
  by_cases hindex : index < 64
  · simp only [hindex, ↓reduceIte]
    exact getLsbD_mark _ hindex i
  · have hne : index ≠ i := by omega
    simp [hindex, hne]

theorem scan_of_not_serves (state : Scan) {binding : Binding} (index : Nat)
    (hserves : (answers binding && binding.serves method) = false) :
    ∃ after, scan method answers state (binding, index) = .ok after ∧
      Scanned method answers [binding] index state after := by
  cases hadmits : answers binding with
  | false =>
      refine ⟨state, by simp [scan, hadmits], ?_, ?_, ?_⟩
      · simp [hadmits]
      · simp [hadmits]
      · intro i _
        rcases hsub : i - index with _ | k <;> simp [hadmits]
  | true =>
      rw [hadmits, Bool.true_and, Binding.serves, Bool.or_eq_false_iff, decide_eq_false_iff_not,
        decide_eq_false_iff_not] at hserves
      cases hmethod : binding.entry.httpMethod with
      | any => exact absurd hmethod hserves.1
      | one bound =>
          have hbound : bound ≠ method := fun heq => hserves.2 (by rw [hmethod, heq])
          have hword := admitted_mark state index hadmits
          by_cases hget : bound = Method.GET ∧ method = Method.HEAD
          · refine ⟨{ state.mark index with head := state.head.or (some index) }, ?_, ?_, ?_, hword⟩
            · obtain ⟨rfl, rfl⟩ := hget
              simp [scan, hadmits, hmethod, hbound, Scan.mark]
            · simp [hadmits, hget.2, Binding.isGet, hmethod, hget.1]
            · simp [hadmits, Scan.mark]
          · refine ⟨state.mark index, ?_, ?_, ?_, hword⟩
            · simp [scan, hadmits, hmethod, hbound, hget]
            · by_cases hhead : method = Method.HEAD
              · have hnot : bound ≠ Method.GET := fun heq => hget ⟨heq, hhead⟩
                simp [hhead, Binding.isGet, hmethod, hnot, Scan.mark]
              · simp [hhead, Scan.mark]
            · simp [hadmits, Scan.mark]

theorem Scanned.cons {binding : Binding} {bindings : List Binding} {index : Nat}
    {before middle after : Scan} (hfirst : Scanned method answers [binding] index before middle)
    (hrest : Scanned method answers bindings (index + 1) middle after) :
    Scanned method answers (binding :: bindings) index before after where
  head := by
    rw [hrest.head, hfirst.head, Option.or_assoc]
    congr 1
    split
    · rw [List.findIdx?_cons, List.findIdx?_cons]
      split
      · simp
      · cases bindings.findIdx? fun binding => answers binding && binding.isGet with
        | none => simp
        | some i => simp [Nat.add_assoc, Nat.add_comm 1]
    · rfl
  answered := by
    rw [hrest.answered, hfirst.answered]
    simp [Bool.or_assoc]
  admitted := by
    intro i hi
    rw [hrest.admitted i hi, hfirst.admitted i hi, Bool.or_assoc]
    congr 1
    rcases Nat.lt_trichotomy index i with hlt | heq | hgt
    · obtain ⟨k, rfl⟩ : ∃ k, i = index + k + 1 := ⟨i - index - 1, by omega⟩
      have hsub : index + k + 1 - index = k + 1 := by omega
      have hsub' : index + k + 1 - (index + 1) = k := by omega
      have hle : index ≤ index + k + 1 := by omega
      have hle' : index + 1 ≤ index + k + 1 := by omega
      simp [hsub, hsub', hle, hle']
    · have hle : ¬ i + 1 ≤ i := by omega
      simp [heq, hle]
    · have hle : ¬ index ≤ i := by omega
      have hle' : ¬ index + 1 ≤ i := by omega
      simp [hle, hle']

/-- The loop over the bindings: it returns at the first one that serves, and otherwise has scanned
them all. -/
theorem foldlM_scan (bindings : List Binding) (index : Nat) (state : Scan) :
    match bindings.findIdx? fun binding => answers binding && binding.serves method with
    | some i => (bindings.zipIdx index).foldlM (scan method answers) state = .error (index + i)
    | none => ∃ after, (bindings.zipIdx index).foldlM (scan method answers) state = .ok after ∧
        Scanned method answers bindings index state after := by
  induction bindings generalizing index state with
  | nil => exact ⟨state, rfl, by simp, by simp, by simp⟩
  | cons binding bindings ih =>
      rw [List.findIdx?_cons, List.zipIdx_cons, List.foldlM_cons]
      cases hserves : answers binding && binding.serves method with
      | true =>
          obtain ⟨hadmits, hserves⟩ := Bool.and_eq_true_iff.mp hserves
          rw [scan_of_serves hadmits hserves]
          rfl
      | false =>
          obtain ⟨middle, hstep, hfirst⟩ := scan_of_not_serves state index hserves
          have hrest := ih (index + 1) middle
          rw [hstep]
          cases hfind : bindings.findIdx? fun binding => answers binding && binding.serves method with
          | some i =>
              rw [hfind] at hrest
              simp only [Nat.add_assoc, Nat.add_comm 1] at hrest
              exact hrest
          | none =>
              rw [hfind] at hrest
              obtain ⟨after, hafter, hscanned⟩ := hrest
              exact ⟨after, hafter, hfirst.cons hscanned⟩

theorem choose_eq (position : Nat) :
    table.choose position method answers =
      match table.served method answers with
      | some index => some (.route position index)
      | none =>
          if table.bindings.any answers then
            some (.methodNotAllowed position (table.allow (table.admitsAt answers)))
          else none := by
  have hloop := @foldlM_scan method answers table.bindings 0 {}
  unfold choose served
  cases hfind : table.bindings.findIdx? fun binding =>
    answers binding && binding.serves method with
  | some i =>
      rw [hfind] at hloop
      simp only [Nat.zero_add] at hloop
      simp [hloop]
  | none =>
      rw [hfind] at hloop
      obtain ⟨after, hafter, hscanned⟩ := hloop
      have hhead := hscanned.head
      simp only [Option.none_or, Nat.zero_add, Option.map_id'] at hhead
      have hadmitted : (fun index => if index < 64 then
          decide (after.admitted &&& 1#64 <<< index ≠ 0#64)
          else (table.bindings[index]?).any answers) = table.admitsAt answers := by
        funext index
        split
        · next hindex => rw [marked_eq_getLsbD _ hindex, hscanned.admitted index hindex]; simp [admitsAt]
        · rfl
      cases hget : (if method = .HEAD then
          table.bindings.findIdx? fun binding => answers binding && binding.isGet else none) <;>
        simp only [hafter, hhead, hget, hscanned.answered, hadmitted, Option.none_or, Bool.false_or]

theorem served_eq_none_of_any (hany : table.bindings.any answers = false) :
    table.served method answers = none := by
  have hnone : ∀ p : Binding → Bool,
      table.bindings.findIdx? (fun binding => answers binding && p binding) = none := by
    intro p
    rw [List.findIdx?_eq_none_iff]
    intro binding hmem
    rw [List.any_eq_false.mp hany binding hmem |> Bool.eq_false_iff.mpr, Bool.false_and]
  simp [served, hnone]

/-! ### The methods a 405 lists -/

def admittedMethods (answers : Binding → Bool) (bindings : List Binding) : List Text :=
  (bindings.filter answers).map (·.entry.httpMethod.asStr)

/-- The tokens of an `Allow` value: each method once, HEAD after a GET. -/
def allowTokens (methods : List Text) : List Text :=
  if str "GET" ∈ methods ∧ str "HEAD" ∉ methods then methods.eraseDups ++ [str "HEAD"]
  else methods.eraseDups

theorem mem_allowTokens_iff {methods : List Text} {token : Text} :
    token ∈ allowTokens methods ↔
      token ∈ methods ∨ token = str "HEAD" ∧ str "GET" ∈ methods := by
  unfold allowTokens
  split
  · next hget =>
      rw [List.mem_append, List.mem_eraseDups, List.mem_singleton]
      exact or_congr_right ⟨fun htoken => ⟨htoken, hget.1⟩, fun htoken => htoken.1⟩
  · next hhead =>
      rw [List.mem_eraseDups]
      refine ⟨Or.inl, ?_⟩
      rintro (hmem | ⟨rfl, hget⟩)
      · exact hmem
      · by_contra hnot
        exact hhead ⟨hget, hnot⟩

theorem nodup_allowTokens (methods : List Text) : (allowTokens methods).Nodup := by
  have hnodup := Lib.nodup_eraseDups methods
  unfold allowTokens
  split
  · next hget =>
      refine List.nodup_append.mpr ⟨hnodup, List.nodup_singleton _, ?_⟩
      intro token hmem other hother heq
      rw [List.mem_singleton.mp hother] at heq
      rw [heq] at hmem
      exact hget.2 (List.mem_eraseDups.mp hmem)
  · exact hnodup

def commaSpace : Text := str ", "

theorem asStr_ne_nil (method : RouteMethod) : method.asStr ≠ [] := by
  cases method with
  | any => decide
  | one method =>
      have hvalid := method.valid
      rw [Bool.and_eq_true] at hvalid
      intro hnil
      rw [show method.token = [] from hnil] at hvalid
      exact absurd hvalid.1 (by decide)

theorem intercalate_eq_nil_iff {tokens : List Text} (hne : ∀ token ∈ tokens, token ≠ []) :
    commaSpace.intercalate tokens = [] ↔ tokens = [] := by
  cases tokens with
  | nil => simp [List.intercalate]
  | cons first rest =>
      have hfirst : first ≠ [] := hne first List.mem_cons_self
      cases rest with
      | nil => simpa [List.intercalate] using hfirst
      | cons second rest => simp [List.intercalate, hfirst]

structure Listed (answers : Binding → Bool) (bindings : List Binding) (state : Allow) : Prop where
  value : state.value = commaSpace.intercalate (admittedMethods answers bindings).eraseDups
  get : state.get = decide (str "GET" ∈ admittedMethods answers bindings)
  head : state.head = decide (str "HEAD" ∈ admittedMethods answers bindings)

theorem admittedMethods_ne_nil (answers : Binding → Bool) (bindings : List Binding) :
    ∀ token ∈ (admittedMethods answers bindings).eraseDups, token ≠ [] := by
  intro token hmem
  obtain ⟨binding, -, rfl⟩ := List.mem_map.mp (List.mem_eraseDups.mp hmem)
  exact asStr_ne_nil _

theorem listed_earlier (answers : Binding → Bool) (before rest : List Binding) (token : Text) :
    (before.zipIdx.any fun (b, earlier) =>
      b.entry.httpMethod.asStr = token && ((before ++ rest)[earlier]?).any answers) =
        decide (token ∈ admittedMethods answers before) := by
  rw [Bool.eq_iff_iff, List.any_eq_true, decide_eq_true_eq, admittedMethods, List.mem_map]
  constructor
  · rintro ⟨⟨binding, i⟩, hmem, hbinding⟩
    have hget : before[i]? = some binding := List.mem_zipIdx_iff_getElem?.mp hmem
    have hlt : i < before.length := (List.getElem?_eq_some_iff.mp hget).1
    simp only [List.getElem?_append_left hlt, hget, Option.any_some, Bool.and_eq_true,
      decide_eq_true_eq] at hbinding
    exact ⟨binding, List.mem_filter.mpr ⟨List.mem_of_getElem? hget, hbinding.2⟩, hbinding.1⟩
  · rintro ⟨binding, hmem, htoken⟩
    obtain ⟨hmem, hadmits⟩ := List.mem_filter.mp hmem
    obtain ⟨i, hlt, hget⟩ := List.mem_iff_getElem.mp hmem
    have hget? : before[i]? = some binding := List.getElem?_eq_some_iff.mpr ⟨hlt, hget⟩
    refine ⟨(binding, i), List.mem_zipIdx_iff_getElem?.mpr hget?, ?_⟩
    simp [List.getElem?_append_left hlt, hget?, htoken, hadmits]

theorem mem_concat_of_mem {tokens : List Text} {token other : Text} (hmem : token ∈ tokens) :
    other ∈ tokens ++ [token] ↔ other ∈ tokens := by
  rw [List.mem_append, List.mem_singleton]
  refine ⟨?_, Or.inl⟩
  rintro (hother | rfl)
  · exact hother
  · exact hmem

theorem listed_step {answers : Binding → Bool} {before : List Binding} {state : Allow}
    (hlisted : Listed answers before state) (binding : Binding) (rest : List Binding) :
    Listed answers (before ++ [binding])
      (allowStep (before ++ binding :: rest) (fun i => ((before ++ binding :: rest)[i]?).any answers)
        state (binding, before.length)) := by
  have hearlier := listed_earlier answers before (binding :: rest) binding.entry.httpMethod.asStr
  have htake : (before ++ binding :: rest).take before.length = before := List.take_left
  have hat : (before ++ binding :: rest)[before.length]? = some binding := by simp
  have hmethods : admittedMethods answers (before ++ [binding]) =
      admittedMethods answers before ++
        if answers binding then [binding.entry.httpMethod.asStr] else [] := by
    cases hadmits : answers binding <;> simp [admittedMethods, hadmits]
  unfold allowStep
  simp only [htake, hearlier, hat, Option.any_some]
  cases hadmits : answers binding with
  | false =>
      rw [hadmits] at hmethods
      simp only [Bool.not_false, Bool.true_or, ↓reduceIte]
      refine ⟨?_, ?_, ?_⟩
      · rw [hmethods]
        simpa using hlisted.value
      · rw [hmethods]
        simpa using hlisted.get
      · rw [hmethods]
        simpa using hlisted.head
  | true =>
      rw [hadmits] at hmethods
      by_cases hmem : binding.entry.httpMethod.asStr ∈ admittedMethods answers before
      · simp only [hmem, decide_true, Bool.or_true, ↓reduceIte]
        refine ⟨?_, ?_, ?_⟩
        · rw [hmethods]
          simpa [Lib.eraseDups_concat, hmem] using hlisted.value
        · rw [hmethods, hlisted.get, decide_eq_decide]
          exact (mem_concat_of_mem hmem).symm
        · rw [hmethods, hlisted.head, decide_eq_decide]
          exact (mem_concat_of_mem hmem).symm
      · simp only [hmem, decide_false, Bool.not_true, Bool.false_or, Bool.false_eq_true, ↓reduceIte]
        refine ⟨?_, ?_, ?_⟩
        · simp only [↓reduceIte] at hmethods
          rw [hmethods, Lib.eraseDups_concat, if_neg hmem, hlisted.value]
          by_cases hnil : (admittedMethods answers before).eraseDups = []
          · rw [hnil]
            simp [List.intercalate]
          · have hvalue := mt (intercalate_eq_nil_iff (admittedMethods_ne_nil answers before)).mp hnil
            rw [Lib.intercalate_concat commaSpace hnil, if_neg (by simpa using hvalue)]
            rfl
        · simp [hmethods, hlisted.get, Bool.decide_or, eq_comm]
        · simp [hmethods, hlisted.head, Bool.decide_or, eq_comm]

theorem listed_foldl (answers : Binding → Bool) (rest : List Binding) :
    ∀ (before : List Binding) (state : Allow), Listed answers before state →
      Listed answers (before ++ rest) ((rest.zipIdx before.length).foldl
        (allowStep (before ++ rest) fun i => ((before ++ rest)[i]?).any answers) state) := by
  induction rest with
  | nil =>
      intro before state hlisted
      rwa [List.append_nil]
  | cons binding rest ih =>
      intro before state hlisted
      have hsplit : before ++ binding :: rest = (before ++ [binding]) ++ rest := by simp
      have hlength : before.length + 1 = (before ++ [binding]).length := by simp
      have hstep := listed_step hlisted binding rest
      rw [List.zipIdx_cons, List.foldl_cons, hlength]
      rw [hsplit] at hstep ⊢
      exact ih (before ++ [binding]) _ hstep

theorem allow_eq (answers : Binding → Bool) :
    table.allow (table.admitsAt answers) =
      commaSpace.intercalate (allowTokens (admittedMethods answers table.bindings)) := by
  have hlisted := listed_foldl answers table.bindings [] {} ⟨rfl, rfl, rfl⟩
  rw [List.nil_append] at hlisted
  have hstate : table.allow (table.admitsAt answers) =
      if str "GET" ∈ admittedMethods answers table.bindings ∧
          str "HEAD" ∉ admittedMethods answers table.bindings then
        commaSpace.intercalate (admittedMethods answers table.bindings).eraseDups ++ str ", HEAD"
      else commaSpace.intercalate (admittedMethods answers table.bindings).eraseDups := by
    have hcond : ∀ state : Allow, Listed answers table.bindings state →
        ((state.get && !state.head) = true ↔ str "GET" ∈ admittedMethods answers table.bindings ∧
          str "HEAD" ∉ admittedMethods answers table.bindings) := by
      intro state hstate
      rw [hstate.get, hstate.head]
      simp
    rw [← hlisted.value]
    exact if_congr (hcond _ hlisted) rfl rfl
  rw [hstate, allowTokens]
  split
  · next hget =>
      have hne : (admittedMethods answers table.bindings).eraseDups ≠ [] :=
        List.ne_nil_of_mem (List.mem_eraseDups.mpr hget.1)
      rw [Lib.intercalate_concat commaSpace hne, List.append_assoc]
      rfl
  · rfl

end PathTable

end StructuredProxy

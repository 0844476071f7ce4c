import StructuredProxy.ClientAddress.Elements

/-!
# Field lines as one list

`readList` says what the walk is for: of one list, read from the right, the first address outside the
trusted proxies. The walk over field lines is this reading of the lines joined by commas, unless it
takes something from an element longer than `maxElement`: the first element of a line may have one
byte more than the others. The bound is exact.
-/

namespace StructuredProxy.Addressing

open Lib

def isBlank (element : Text) : Bool := (trimWhitespace element).isEmpty

def addressIn (forms : AddressText) (element : Text) : Option IpAddr :=
  if isBlank element then none
  else (parseAddress forms (trimWhitespace element)).map IpAddr.toCanonical

def unreadable (forms : AddressText) (element : Text) : Bool :=
  maxElement < element.length || (!isBlank element && (addressIn forms element).isNone)

namespace Resolver

variable (resolver : Resolver) (forms : AddressText)

def passes (element : Text) : Bool :=
  !unreadable forms element && (addressIn forms element).all resolver.trusts

/-- The reading of a list, last element first, with `room` elements still to read and some hops noted
already. -/
def readListFrom (room : Nat) (noted : List IpAddr) (elements : List Text) : Walked :=
  let near := elements.take room
  let hops := noted ++ (near.takeWhile (resolver.passes forms)).filterMap (addressIn forms)
  match near.find? fun element => !resolver.passes forms element with
  | some element =>
      ⟨if unreadable forms element then .error .malformed else .ok (addressIn forms element), hops⟩
  | none =>
      if room < elements.length then ⟨.error .tooManyHops, hops⟩
      else ⟨.ok hops.getLast?, hops.dropLast⟩

/-- The reading of a list as one: the first address outside the trusted proxies from the right, or
the leftmost one, unless an unreadable element or the bound on elements comes before it. -/
def readList (list : Text) : Walked :=
  resolver.readListFrom forms maxHops [] (list.splitOn comma).reverse

variable {resolver forms} {room : Nat} {noted : List IpAddr} {element : Text} {elements : List Text}

theorem readListFrom_nil :
    resolver.readListFrom forms room noted [] = ⟨.ok noted.getLast?, noted.dropLast⟩ := by
  simp [readListFrom]

theorem readListFrom_zero :
    resolver.readListFrom forms 0 noted (element :: elements) = ⟨.error .tooManyHops, noted⟩ := by
  simp [readListFrom]

theorem readListFrom_of_passes (hpass : resolver.passes forms element = true) :
    resolver.readListFrom forms (room + 1) noted (element :: elements) =
      resolver.readListFrom forms room (noted ++ (addressIn forms element).toList) elements := by
  have hhops : (element :: elements.take room |>.takeWhile (resolver.passes forms)).filterMap
      (addressIn forms) = (addressIn forms element).toList ++
        ((elements.take room).takeWhile (resolver.passes forms)).filterMap (addressIn forms) := by
    rw [List.takeWhile_cons_of_pos hpass, List.filterMap_cons]
    cases addressIn forms element <;> rfl
  rw [readListFrom, readListFrom, List.take_succ_cons, hhops,
    List.find?_cons_of_neg (by simp [hpass]), List.append_assoc, List.length_cons]
  simp only [Nat.add_lt_add_iff_right]

theorem readListFrom_of_not_passes (hpass : resolver.passes forms element = false) :
    resolver.readListFrom forms (room + 1) noted (element :: elements) =
      ⟨if unreadable forms element then .error .malformed else .ok (addressIn forms element),
        noted⟩ := by
  rw [readListFrom, List.take_succ_cons, List.find?_cons_of_pos (by simp [hpass]),
    List.takeWhile_cons_of_neg (by simp [hpass]), List.filterMap_nil, List.append_nil]

variable {state : WalkState} {limit : Nat} {ip : IpAddr}

theorem readElement_of_maxHops (hread : maxHops < state.read + 1) :
    resolver.readElement forms state (element, limit) =
      .error ⟨.error .tooManyHops, state.hops⟩ := by
  rw [readElement, if_pos hread]

theorem readElement_of_long (hread : ¬ maxHops < state.read + 1) (hlong : limit < element.length) :
    resolver.readElement forms state (element, limit) = .error ⟨.error .malformed, state.hops⟩ := by
  rw [readElement, if_neg hread, if_neg (by simpa using hlong)]

theorem readElement_of_blank (hread : ¬ maxHops < state.read + 1) (hfits : element.length ≤ limit)
    (hblank : isBlank element = true) :
    resolver.readElement forms state (element, limit) =
      .ok { state with read := state.read + 1 } := by
  rw [isBlank] at hblank
  rw [readElement, if_neg hread, if_pos hfits, walkElement, if_pos hblank]

theorem readElement_of_addressIn (hread : ¬ maxHops < state.read + 1)
    (hfits : element.length ≤ limit) (hblank : ¬ isBlank element = true) :
    resolver.readElement forms state (element, limit) =
      match addressIn forms element with
      | none => .error ⟨.error .malformed, state.hops⟩
      | some ip =>
          if resolver.trusts ip then .ok ⟨state.read + 1, some ip, state.hops ++ [ip]⟩
          else .error ⟨.ok (some ip), state.hops⟩ := by
  have hempty : ¬ (trimWhitespace element).isEmpty = true := hblank
  cases haddress : (parseAddress forms (trimWhitespace element)).map IpAddr.toCanonical <;>
    simp only [readElement, walkElement, addressIn, if_neg hread, if_pos hfits, if_neg hempty,
      if_neg hblank, haddress]

def returns (resolver : Resolver) (forms : AddressText) (state : WalkState)
    (elements : List (Text × Nat)) : Walked :=
  finish (elements.foldlM (resolver.readElement forms) state)

variable {run : List (Text × Nat)}

theorem returns_cons {next : WalkState}
    (h : resolver.readElement forms state (element, limit) = .ok next) :
    resolver.returns forms state ((element, limit) :: run) = resolver.returns forms next run := by
  rw [returns, List.foldlM_cons, h]
  rfl

theorem returns_cons_of_error {walked : Walked}
    (h : resolver.readElement forms state (element, limit) = .error walked) :
    resolver.returns forms state ((element, limit) :: run) = walked := by
  rw [returns, List.foldlM_cons, h]
  rfl

def bounded (elements : List Text) : List (Text × Nat) :=
  elements.map fun element => (element, maxElement)

theorem returns_bounded (elements : List Text) : ∀ (read : Nat) (hops : List IpAddr),
    read ≤ maxHops →
      resolver.returns forms ⟨read, hops.getLast?, hops⟩ (bounded elements) =
        resolver.readListFrom forms (maxHops - read) hops elements := by
  induction elements with
  | nil =>
      intro read hops _
      rw [readListFrom_nil]
      cases hlast : hops.getLast? with
      | none =>
          rw [List.getLast?_eq_none_iff] at hlast
          rw [hlast]
          rfl
      | some ip => rfl
  | cons element elements ih =>
      intro read hops hread
      by_cases hmax : maxHops < read + 1
      · have hroom : maxHops - read = 0 := by omega
        rw [hroom, readListFrom_zero]
        exact returns_cons_of_error (readElement_of_maxHops hmax)
      have hroom : maxHops - read = maxHops - (read + 1) + 1 := by omega
      rw [hroom]
      by_cases hlong : maxElement < element.length
      · have hunreadable : unreadable forms element = true := by simp [unreadable, hlong]
        rw [readListFrom_of_not_passes (by simp [passes, hunreadable]), if_pos hunreadable]
        exact returns_cons_of_error (readElement_of_long hmax hlong)
      have hfits : element.length ≤ maxElement := by omega
      by_cases hblank : isBlank element = true
      · have haddress : addressIn forms element = none := by rw [addressIn, if_pos hblank]
        have hpass : resolver.passes forms element = true := by
          simp [passes, unreadable, hlong, hblank, haddress]
        rw [readListFrom_of_passes hpass, haddress, Option.toList_none, List.append_nil,
          ← ih (read + 1) hops (by omega)]
        exact returns_cons (readElement_of_blank hmax hfits hblank)
      have hstep : resolver.readElement forms ⟨read, hops.getLast?, hops⟩ (element, maxElement) = _ :=
        readElement_of_addressIn hmax hfits hblank
      cases haddress : addressIn forms element with
      | none =>
          have hunreadable : unreadable forms element = true := by
            simp [unreadable, hblank, haddress]
          rw [haddress] at hstep
          rw [readListFrom_of_not_passes (by simp [passes, hunreadable]), if_pos hunreadable]
          exact returns_cons_of_error hstep
      | some ip =>
          have hreadable : unreadable forms element = false := by
            simp [unreadable, hlong, haddress]
          simp only [haddress] at hstep
          by_cases htrusts : resolver.trusts ip = true
          · have hpass : resolver.passes forms element = true := by
              simp [passes, hreadable, haddress, htrusts]
            rw [if_pos htrusts] at hstep
            have hnext := ih (read + 1) (hops ++ [ip]) (by omega)
            rw [List.getLast?_concat] at hnext
            rw [readListFrom_of_passes hpass, haddress, Option.toList_some, ← hnext]
            exact returns_cons hstep
          · have hpass : resolver.passes forms element = false := by
              simp [passes, hreadable, haddress, htrusts]
            rw [if_neg htrusts] at hstep
            rw [readListFrom_of_not_passes hpass, if_neg (by simp [hreadable]), haddress]
            exact returns_cons_of_error hstep

/-! ### What the longer bound of a first element changes -/

/-- Whether the walk takes something from an element longer than `maxElement`: an address, or a blank
one that it goes past to anything but a malformed element. -/
def takesOverlong (resolver : Resolver) (forms : AddressText) (read : Nat) (skipped : Bool) :
    List (Text × Nat) → Bool
  | [] => skipped
  | (element, limit) :: rest =>
      if maxHops < read + 1 then skipped
      else if limit < element.length then false
      else if isBlank element then
        resolver.takesOverlong forms (read + 1) (skipped || decide (maxElement < element.length)) rest
      else
        match addressIn forms element with
        | none => false
        | some ip =>
            skipped || decide (maxElement < element.length) ||
              (resolver.trusts ip && resolver.takesOverlong forms (read + 1) false rest)

theorem readElement_hops (resolver : Resolver) (forms : AddressText) (state : WalkState)
    (element : Text) (limit : Nat) :
    (∃ after, resolver.readElement forms state (element, limit) = .ok after ∧
        state.hops <+: after.hops) ∨
      ∃ result, resolver.readElement forms state (element, limit) = .error ⟨result, state.hops⟩ := by
  by_cases hread : maxHops < state.read + 1
  · exact Or.inr ⟨_, readElement_of_maxHops hread⟩
  by_cases hlong : limit < element.length
  · exact Or.inr ⟨_, readElement_of_long hread hlong⟩
  by_cases hblank : isBlank element = true
  · exact Or.inl ⟨_, readElement_of_blank hread (by omega) hblank, List.prefix_rfl⟩
  rw [readElement_of_addressIn hread (by omega) hblank]
  cases addressIn forms element with
  | none => exact Or.inr ⟨_, rfl⟩
  | some ip =>
      by_cases htrusts : resolver.trusts ip = true
      · exact Or.inl ⟨_, if_pos htrusts, List.prefix_append _ _⟩
      · exact Or.inr ⟨_, if_neg htrusts⟩

theorem hops_prefix_of_returns_error {invalid : InvalidForwarding} {hops : List IpAddr}
    (h : resolver.returns forms state run = ⟨.error invalid, hops⟩) : state.hops <+: hops := by
  induction run generalizing state with
  | nil => cases h
  | cons next run ih =>
      obtain ⟨element, limit⟩ := next
      rcases readElement_hops resolver forms state element limit with ⟨after, hstep, hhops⟩ |
        ⟨result, hstep⟩
      · rw [returns_cons hstep] at h
        exact hhops.trans (ih h)
      · rw [returns_cons_of_error hstep] at h
        cases h
        exact List.prefix_rfl

/-- A trusted address that was noted cannot be forgotten by a malformed element after it. -/
theorem returns_noted_ne (invalid : InvalidForwarding) (read : Nat) (leftmost : Option IpAddr)
    (hops : List IpAddr) (ip : IpAddr) :
    resolver.returns forms ⟨read, leftmost, hops ++ [ip]⟩ run ≠ ⟨.error invalid, hops⟩ := by
  intro h
  have hlength := (hops_prefix_of_returns_error h).length_le
  rw [List.length_append, List.length_singleton] at hlength
  omega

theorem returns_address_ne (hread : ¬ maxHops < state.read + 1) (hfits : element.length ≤ limit)
    (haddress : addressIn forms element = some ip) :
    resolver.returns forms state ((element, limit) :: run) ≠ ⟨.error .malformed, state.hops⟩ := by
  have hblank : ¬ isBlank element = true := by
    intro hblank
    rw [addressIn, if_pos hblank] at haddress
    cases haddress
  have hstep : resolver.readElement forms state (element, limit) = _ :=
    readElement_of_addressIn hread hfits hblank
  simp only [haddress] at hstep
  by_cases htrusts : resolver.trusts ip = true
  · rw [if_pos htrusts] at hstep
    rw [returns_cons hstep]
    exact returns_noted_ne _ _ _ _ _
  · rw [if_neg htrusts] at hstep
    rw [returns_cons_of_error hstep]
    intro h
    cases h

/-- Past an overlong blank element, the walk returns what the bounded reading returned there exactly
when it meets a malformed element before anything else. -/
theorem returns_malformed_iff :
    resolver.returns forms state run = ⟨.error .malformed, state.hops⟩ ↔
      resolver.takesOverlong forms state.read true run = false := by
  induction run generalizing state with
  | nil =>
      constructor
      · intro h
        cases h
      · intro h
        cases h
  | cons next run ih =>
      obtain ⟨element, limit⟩ := next
      rw [takesOverlong]
      by_cases hread : maxHops < state.read + 1
      · rw [if_pos hread, returns_cons_of_error (readElement_of_maxHops hread)]
        simp
      rw [if_neg hread]
      by_cases hlong : limit < element.length
      · rw [if_pos hlong, returns_cons_of_error (readElement_of_long hread hlong)]
        simp
      rw [if_neg hlong]
      by_cases hblank : isBlank element = true
      · rw [if_pos hblank, returns_cons (readElement_of_blank hread (by omega) hblank),
          Bool.true_or]
        exact ih
      rw [if_neg hblank]
      cases haddress : addressIn forms element with
      | none =>
          have hstep : resolver.readElement forms state (element, limit) = _ :=
            readElement_of_addressIn hread (by omega) hblank
          simp only [haddress] at hstep
          rw [returns_cons_of_error hstep]
          simp
      | some ip =>
          simp only [Bool.true_or, Bool.true_eq_false, iff_false]
          exact returns_address_ne hread (by omega) haddress

/-- **The longer bound shows exactly when the walk takes something from an overlong element.** -/
theorem returns_eq_bounded_iff (hlimits : ∀ next ∈ run, maxElement ≤ next.2) :
    resolver.returns forms state run =
        resolver.returns forms state (bounded (run.map Prod.fst)) ↔
      resolver.takesOverlong forms state.read false run = false := by
  induction run generalizing state with
  | nil => simp [bounded, takesOverlong]
  | cons next run ih =>
      obtain ⟨element, limit⟩ := next
      have hlimit : maxElement ≤ limit := hlimits _ List.mem_cons_self
      have hrest : ∀ next ∈ run, maxElement ≤ next.2 := fun next hnext =>
        hlimits next (List.mem_cons_of_mem _ hnext)
      have hbounded : bounded (((element, limit) :: run).map Prod.fst) =
          (element, maxElement) :: bounded (run.map Prod.fst) := rfl
      rw [hbounded]
      by_cases hread : maxHops < state.read + 1
      · rw [takesOverlong, if_pos hread, returns_cons_of_error (readElement_of_maxHops hread),
          returns_cons_of_error (readElement_of_maxHops hread)]
        simp
      by_cases hover : maxElement < element.length
      · -- the bounded reading stops here
        have htakes : resolver.takesOverlong forms state.read false ((element, limit) :: run) =
            resolver.takesOverlong forms state.read true ((element, limit) :: run) := by
          simp [takesOverlong, hover, hread]
        rw [htakes, returns_cons_of_error (readElement_of_long hread hover)]
        exact returns_malformed_iff
      · -- a step of both runs
        have hfits : element.length ≤ maxElement := by omega
        rw [takesOverlong, if_neg hread, if_neg (by omega)]
        by_cases hblank : isBlank element = true
        · rw [if_pos hblank, returns_cons (readElement_of_blank hread (by omega) hblank),
            returns_cons (readElement_of_blank hread hfits hblank), decide_eq_false hover,
            Bool.or_false]
          exact ih hrest
        rw [if_neg hblank]
        have hstep : resolver.readElement forms state (element, limit) = _ :=
          readElement_of_addressIn hread (by omega) hblank
        have hstep' : resolver.readElement forms state (element, maxElement) = _ :=
          readElement_of_addressIn hread hfits hblank
        cases haddress : addressIn forms element with
        | none =>
            simp only [haddress] at hstep hstep'
            rw [returns_cons_of_error hstep, returns_cons_of_error hstep']
            simp
        | some ip =>
            simp only [haddress] at hstep hstep'
            by_cases htrusts : resolver.trusts ip = true
            · rw [if_pos htrusts] at hstep hstep'
              rw [returns_cons hstep, returns_cons hstep', ih hrest]
              simp [hover, htrusts]
            · rw [if_neg htrusts] at hstep hstep'
              rw [returns_cons_of_error hstep, returns_cons_of_error hstep']
              simp [hover, htrusts]

theorem takesOverlong_eq_false (h : ∀ next ∈ run, next.1.length ≤ maxElement ∨ next.2 < next.1.length)
    (read : Nat) : resolver.takesOverlong forms read false run = false := by
  induction run generalizing read with
  | nil => rfl
  | cons next run ih =>
      obtain ⟨element, limit⟩ := next
      have hrest := ih fun next hnext => h next (List.mem_cons_of_mem _ hnext)
      have hnext : element.length ≤ maxElement ∨ limit < element.length := h _ List.mem_cons_self
      rw [takesOverlong]
      by_cases hread : maxHops < read + 1
      · rw [if_pos hread]
      rw [if_neg hread]
      by_cases hlong : limit < element.length
      · rw [if_pos hlong]
      have hover : ¬ maxElement < element.length := by omega
      rw [if_neg hlong, decide_eq_false hover, Bool.or_false, hrest]
      cases addressIn forms element <;> simp

end Resolver

/-! ### Field lines and their join -/

def joinLines (lines : List Text) : Text := [comma].intercalate lines

theorem splitOn_joinLines {lines : List Text} (hne : lines ≠ []) :
    (joinLines lines).splitOn comma = lines.flatMap fun line => line.splitOn comma := by
  induction lines with
  | nil => exact absurd rfl hne
  | cons line lines ih =>
      cases lines with
      | nil => simp [joinLines]
      | cons next lines =>
          have hjoin : joinLines (line :: next :: lines) =
              line ++ comma :: joinLines (next :: lines) := by
            simp [joinLines, List.intercalate]
          rw [hjoin, List.splitOn_append_cons_self, ih (List.cons_ne_nil _ _)]
          rfl

def elementsOf (lines : List Text) : List (Text × Nat) := lines.reverse.flatMap limitedElements

theorem map_fst_limitedElements (line : Text) :
    (limitedElements line).map Prod.fst = (line.splitOn comma).reverse := by
  rw [limitedElements]
  cases line.splitOn comma with
  | nil => rfl
  | cons first rest => simp [Function.comp_def]

theorem map_fst_elementsOf (lines : List Text) :
    (elementsOf lines).map Prod.fst = (lines.flatMap fun line => line.splitOn comma).reverse := by
  rw [elementsOf, List.map_flatMap, List.reverse_flatMap]
  simp only [map_fst_limitedElements]
  rfl

theorem maxElement_le_of_mem_limitedElements {line : Text} {next : Text × Nat}
    (h : next ∈ limitedElements line) :
    next.2 = maxElement ∨ next.2 = maxElement + 1 ∧ (line.splitOn comma).head? = some next.1 := by
  rw [limitedElements] at h
  cases hparts : line.splitOn comma with
  | nil => exact absurd hparts (List.splitOn_ne_nil comma line)
  | cons first rest =>
      simp only [hparts, List.mem_append, List.mem_map, List.mem_singleton] at h
      rcases h with ⟨element, -, rfl⟩ | rfl
      · exact Or.inl rfl
      · exact Or.inr ⟨rfl, rfl⟩

/-- No line starts with an element of exactly `maxElement + 1` bytes. -/
def FirstElementsFit (lines : List Text) : Prop :=
  ∀ line ∈ lines, (line.splitOn comma).head?.map List.length ≠ some (maxElement + 1)

instance (lines : List Text) : Decidable (FirstElementsFit lines) :=
  inferInstanceAs (Decidable (∀ line ∈ lines, _))

theorem FirstElementsFit.joinLines {lines : List Text} (h : FirstElementsFit lines)
    (hne : lines ≠ []) : FirstElementsFit [joinLines lines] := by
  intro joined hjoined
  rw [List.mem_singleton] at hjoined
  subst hjoined
  obtain ⟨line, rest, rfl⟩ := List.exists_cons_of_ne_nil hne
  rw [splitOn_joinLines hne, List.flatMap_cons,
    List.head?_append_of_ne_nil _ (List.splitOn_ne_nil comma line)]
  exact h line List.mem_cons_self

namespace Resolver

variable {resolver : Resolver} {forms : AddressText} {lines : List Text}

def TakesOverlong (resolver : Resolver) (forms : AddressText) (lines : List Text) : Prop :=
  resolver.takesOverlong forms 0 false (elementsOf lines) = true

instance : Decidable (resolver.TakesOverlong forms lines) :=
  inferInstanceAs (Decidable (_ = true))

theorem not_takesOverlong_of_firstElementsFit (h : FirstElementsFit lines) :
    ¬ resolver.TakesOverlong forms lines := by
  rw [TakesOverlong, Bool.not_eq_true]
  refine takesOverlong_eq_false (fun next hnext => ?_) 0
  obtain ⟨line, hline, hnext⟩ := List.mem_flatMap.mp hnext
  rcases maxElement_le_of_mem_limitedElements hnext with hlimit | ⟨hlimit, hfirst⟩
  · omega
  · have hlength := h line (List.mem_reverse.mp hline)
    rw [hfirst, Option.map_some, ne_eq, Option.some.injEq] at hlength
    omega

theorem walk_eq_readList_iff {list : Text}
    (hlist : list.splitOn comma = lines.flatMap fun line => line.splitOn comma) :
    resolver.walk forms lines = resolver.readList forms list ↔
      ¬ resolver.TakesOverlong forms lines := by
  have hlimits : ∀ next ∈ elementsOf lines, maxElement ≤ next.2 := by
    intro next hnext
    obtain ⟨line, -, hnext⟩ := List.mem_flatMap.mp hnext
    rcases maxElement_le_of_mem_limitedElements hnext with hlimit | ⟨hlimit, -⟩ <;> omega
  have hread : resolver.readList forms list =
      resolver.returns forms WalkState.start (bounded ((elementsOf lines).map Prod.fst)) := by
    rw [readList, hlist, map_fst_elementsOf]
    exact (returns_bounded _ 0 [] (Nat.zero_le _)).symm
  rw [walk_eq_foldlM, hread, TakesOverlong, Bool.not_eq_true]
  exact returns_eq_bounded_iff hlimits

/-- **Field lines are one list**, with the same result and hops as their join, and the result is the
reading of that list, exactly when the walk takes nothing from an element longer than `maxElement`;
it never does when no line starts with an element of `maxElement + 1` bytes. -/
theorem walk_joined_iff (hne : lines ≠ []) :
    (resolver.walk forms lines = resolver.walk forms [joinLines lines] ∧
        resolver.walk forms lines = resolver.readList forms (joinLines lines) ↔
      ¬ resolver.TakesOverlong forms lines ∧
        ¬ resolver.TakesOverlong forms [joinLines lines]) ∧
      (FirstElementsFit lines →
        ¬ resolver.TakesOverlong forms lines ∧
          ¬ resolver.TakesOverlong forms [joinLines lines]) := by
  have hsplit := splitOn_joinLines hne
  have hsingle : (joinLines lines).splitOn comma =
      [joinLines lines].flatMap fun line => line.splitOn comma := by
    rw [List.flatMap_singleton]
  refine ⟨?_, fun hfit => ⟨not_takesOverlong_of_firstElementsFit hfit,
    not_takesOverlong_of_firstElementsFit (hfit.joinLines hne)⟩⟩
  rw [← walk_eq_readList_iff hsplit, ← walk_eq_readList_iff hsingle]
  constructor
  · rintro ⟨hjoined, hread⟩
    exact ⟨hread, hjoined ▸ hread⟩
  · rintro ⟨hread, hjoined⟩
    exact ⟨hread.trans hjoined.symm, hread⟩

end Resolver

def octet (digits : Text) : Option Nat :=
  let value := digits.foldl (fun n byte => 10 * n + (byte.toNat - 48)) 0
  if digits.all (fun byte => 48 ≤ byte && byte ≤ 57) && value < 256 &&
      (digits.length = 1 || (2 ≤ digits.length && digits.length ≤ 3 && digits.head? ≠ some 48)) then
    some value
  else none

def dottedQuad (text : Text) : Option IpAddr :=
  match (text.splitOn dot).map octet with
  | [some a, some b, some c, some d] => some (.v4 (BitVec.ofNat 32 (((a * 256 + b) * 256 + c) * 256 + d)))
  | _ => none

def dottedForms : AddressText where
  parseIpAddr := dottedQuad
  parseSocketAddr := fun _ => none
  parseIpv6Addr := fun _ => none
  display := fun ip =>
    match ip with
    | .v4 bits =>
        [dot].intercalate
          ([24, 16, 8, 0].map fun shift => decimal ((bits >>> shift).toNat % 256))
    | .v6 _ => []

def inTenNet : IpAddr → Bool
  | .v4 bits => bits >>> 24 = 10
  | .v6 _ => false

def behindProxies (forward : XForwardedFor) : Resolver where
  trusted := [⟨inTenNet⟩]
  header := .xForwardedFor
  required := false
  forward := forward
  clientHeader := some xRealIp
  auditHeader := none

def splitChain : List Text := [str "203.0.113.7", str "10.0.0.3, 10.0.0.2"]

theorem split_chain_is_joined :
    splitChain ≠ [] ∧
      (behindProxies .verified).walk dottedForms splitChain =
        (behindProxies .verified).walk dottedForms [joinLines splitChain] ∧
      (behindProxies .verified).walk dottedForms splitChain =
        (behindProxies .verified).readList dottedForms (joinLines splitChain) :=
  have hne : splitChain ≠ [] := List.cons_ne_nil _ _
  have hfit : FirstElementsFit splitChain := by decide +kernel
  ⟨hne, (Resolver.walk_joined_iff hne).1.mpr ((Resolver.walk_joined_iff hne).2 hfit)⟩

def paddedChain : List Text :=
  [str "203.0.113.7", List.replicate 121 32 ++ str "10.0.0.2"]

theorem padded_line_is_read :
    (behindProxies .verified).walk dottedForms paddedChain =
        ⟨.ok (dottedQuad (str "203.0.113.7")), (dottedQuad (str "10.0.0.2")).toList⟩ ∧
      (behindProxies .verified).walk dottedForms [joinLines paddedChain] =
        ⟨.error .malformed, []⟩ ∧
      (behindProxies .verified).walk dottedForms paddedChain ≠
        (behindProxies .verified).walk dottedForms [joinLines paddedChain] ∧
      (behindProxies .verified).walk dottedForms paddedChain ≠
        (behindProxies .verified).readList dottedForms (joinLines paddedChain) := by
  decide +kernel

end StructuredProxy.Addressing

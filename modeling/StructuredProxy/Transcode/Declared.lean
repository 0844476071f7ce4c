import StructuredProxy.Transcode.Startup
import StructuredProxy.Transcode.Ranked
import Mathlib.Data.List.Pairwise

/-!
# The order bindings are declared in

A table keeps the bindings constrained by an escaped literal or a field template before the open ones,
each kind in the order it was declared in. Two open bindings that a request reaches would clash if they
served one method, so only the order of the constrained ones decides which binding answers.
-/

namespace StructuredProxy

def RouteBinding.constrained (binding : RouteBinding) : Bool :=
  !binding.mount.literals.isEmpty || binding.mount.lastTemplate.isSome

def RouteBinding.held (decoder : PercentDecoder) (binding : RouteBinding) : Binding :=
  Binding.ofMount decoder binding.mount binding.entry none

def Binding.unnamed (binding : Binding) : Binding := { binding with names := none }

variable {decoder : PercentDecoder}

theorem unnamed_ofMount (binding : RouteBinding) (names : Option (List Text)) :
    (Binding.ofMount decoder binding.mount binding.entry names).unnamed = binding.held decoder := rfl

theorem constrained_held (binding : RouteBinding) :
    (binding.held decoder).constrained = binding.constrained := by
  simp [RouteBinding.held, Binding.constrained, Binding.ofMount, RouteBinding.constrained,
    normalizedLiterals, Template.of]

theorem normalizedLiterals_eq_iff : ∀ literals others : List (Nat × Text),
    (literals.length = others.length ∧
      ∀ pair ∈ literals.zip others, pair.1.1 = pair.2.1 ∧
        normalizeEscapes pair.1.2 = normalizeEscapes pair.2.2) ↔
    normalizedLiterals literals = normalizedLiterals others := by
  intro literals
  induction literals with
  | nil => intro others; cases others <;> simp [normalizedLiterals]
  | cons literal literals ih =>
      intro others
      cases others with
      | nil => simp [normalizedLiterals]
      | cons other others =>
          have hrest := ih others
          unfold normalizedLiterals at hrest ⊢
          rw [List.map_cons, List.map_cons, List.cons.injEq, ← hrest, List.zip_cons_cons,
            List.forall_mem_cons, List.length_cons, List.length_cons, Nat.add_right_cancel_iff,
            Prod.mk.injEq]
          exact and_left_comm

theorem clash_iff {claim other : Claim} : clash claim other = true ↔
    claim.verb.map normalizeEscapes = other.verb.map normalizeEscapes ∧
      normalized claim.template = normalized other.template ∧
      normalizedLiterals claim.literals = normalizedLiterals other.literals ∧
      (claim.method = other.method ∨ claim.method = .any ∨ other.method = .any) := by
  rw [← normalizedLiterals_eq_iff]
  unfold clash
  simp only [Bool.and_eq_true, Bool.or_eq_true, decide_eq_true_eq, List.all_eq_true, and_assoc,
    or_assoc]

theorem clash_comm (claim other : Claim) : clash claim other = clash other claim := by
  rw [Bool.eq_iff_iff, clash_iff, clash_iff, eq_comm, @eq_comm _ (normalized claim.template),
    @eq_comm _ (normalizedLiterals claim.literals), @eq_comm _ claim.method,
    or_comm (a := other.method = .any)]

/-- The bindings as a table arranges them: the constrained ones, then the open ones. -/
def arranged (decoder : PercentDecoder) (bindings : List RouteBinding) : List Binding :=
  (bindings.filter RouteBinding.constrained ++
    bindings.filter fun binding => !binding.constrained).map (RouteBinding.held decoder)

/-- The place of a new binding among arranged ones, and where that puts it. -/
theorem arranged_concat (bindings : List RouteBinding) (binding : RouteBinding) :
    (arranged decoder bindings).insertIdx
        (PathTable.place (arranged decoder bindings) (binding.held decoder)) (binding.held decoder) =
      arranged decoder (bindings ++ [binding]) := by
  have hfind : (arranged decoder bindings).findIdx? (fun existing => !existing.constrained) =
      if (bindings.filter fun other => !other.constrained) = [] then none
      else some (bindings.filter RouteBinding.constrained).length := by
    have hopen : (fun existing : Binding => !existing.constrained) ∘ RouteBinding.held decoder =
        fun other => !other.constrained := by
      funext other
      rw [Function.comp, constrained_held]
    have hnone : (bindings.filter RouteBinding.constrained).findIdx? (fun other => !other.constrained) =
        none := by
      rw [List.findIdx?_eq_none_iff]
      intro other hother
      rw [(List.mem_filter.mp hother).2]
      rfl
    rw [arranged, List.findIdx?_map, List.findIdx?_append, hopen, hnone, Option.none_or]
    cases hrest : bindings.filter fun other => !other.constrained with
    | nil => rfl
    | cons other others =>
        have hmem : other ∈ bindings.filter fun other => !other.constrained := by
          rw [hrest]
          exact List.mem_cons_self
        have hother : (!other.constrained) = true := (List.mem_filter.mp hmem).2
        rw [List.findIdx?_cons, hother]
        simp
  unfold PathTable.place
  rw [constrained_held, hfind]
  cases hconstrained : binding.constrained with
  | true =>
      have hplace : (if (bindings.filter fun other => !other.constrained) = [] then none
          else some (bindings.filter RouteBinding.constrained).length : Option Nat).getD
            (arranged decoder bindings).length =
          ((bindings.filter RouteBinding.constrained).map (RouteBinding.held decoder)).length := by
        split
        · rename_i hnil
          rw [arranged, hnil, List.append_nil, Option.getD_none]
        · rw [Option.getD_some, List.length_map]
      rw [if_pos rfl, hplace, arranged, List.map_append, Lib.insertIdx_length_append, arranged,
        List.filter_append, List.filter_append, List.filter_cons_of_pos hconstrained,
        List.filter_cons_of_neg (by rw [hconstrained]; decide)]
      simp
  | false =>
      rw [if_neg (by decide), List.insertIdx_length_self, arranged, arranged, List.filter_append,
        List.filter_append, List.filter_cons_of_neg (by rw [hconstrained]; decide),
        List.filter_cons_of_pos (by rw [hconstrained]; decide)]
      simp

structure Holding (decoder : PercentDecoder) (table : PathTable)
    (declared kept : List RouteBinding) : Prop where
  bindings : table.bindings.map Binding.unnamed = arranged decoder kept
  sublist : kept.Sublist declared
  apart : kept.Pairwise fun earlier later => clash earlier.claim later.claim = false
  complete : (declared.Pairwise fun earlier later => clash earlier.claim later.claim = false) →
    kept = declared

theorem mem_arranged {bindings : List RouteBinding} {held : Binding} :
    held ∈ arranged decoder bindings ↔ ∃ binding ∈ bindings, binding.held decoder = held := by
  rw [arranged, List.mem_map]
  simp only [List.mem_append, List.mem_filter]
  constructor
  · rintro ⟨binding, hmem | hmem, hheld⟩ <;> exact ⟨binding, hmem.1, hheld⟩
  · rintro ⟨binding, hmem, hheld⟩
    refine ⟨binding, ?_, hheld⟩
    cases hconstrained : binding.constrained with
    | true => exact Or.inl ⟨hmem, rfl⟩
    | false => exact Or.inr ⟨hmem, rfl⟩

theorem place_unnamed (bindings : List Binding) (binding : Binding) :
    PathTable.place (bindings.map Binding.unnamed) binding.unnamed =
      PathTable.place bindings binding := by
  unfold PathTable.place
  rw [List.findIdx?_map, List.length_map]
  rfl

namespace Holding

variable {table : PathTable} {declared kept : List RouteBinding}

theorem taken_iff (hholding : Holding decoder table declared kept) {binding : RouteBinding} :
    table.taken binding.mount binding.entry = true ↔
      ∃ earlier ∈ kept, clash earlier.claim binding.claim = true := by
  have hmem : ∀ claim : Claim, (∃ existing ∈ table.bindings, clash existing.claim claim = true) ↔
      ∃ held ∈ arranged decoder kept, clash held.claim claim = true := by
    intro claim
    rw [← hholding.bindings]
    simp only [List.mem_map, exists_exists_and_eq_and]
    rfl
  rw [PathTable.taken, List.any_eq_true, hmem]
  simp only [mem_arranged]
  constructor
  · rintro ⟨-, ⟨earlier, hearlier, rfl⟩, hclash⟩
    exact ⟨earlier, hearlier, by rwa [RouteBinding.held, clash_ofMount] at hclash⟩
  · rintro ⟨earlier, hearlier, hclash⟩
    exact ⟨_, ⟨earlier, hearlier, rfl⟩, by rwa [RouteBinding.held, clash_ofMount]⟩

theorem start (binding : RouteBinding) : Holding decoder (tableOf decoder binding) [binding] [binding] where
  bindings := by
    cases hconstrained : binding.constrained with
    | true => simp [arranged, hconstrained, tableOf, PathTable.new, unnamed_ofMount]
    | false => simp [arranged, hconstrained, tableOf, PathTable.new, unnamed_ofMount]
  sublist := List.Sublist.refl _
  apart := List.pairwise_singleton _ _
  complete _ := rfl

theorem add (hholding : Holding decoder table declared kept) (binding : RouteBinding) :
    ∃ kept', Holding decoder (addTo decoder table binding) (declared ++ [binding]) kept' := by
  rw [addTo, PathTable.add]
  split
  · rename_i htaken
    refine ⟨kept, hholding.bindings, hholding.sublist.trans (List.sublist_append_left _ _),
      hholding.apart, fun hpairwise => ?_⟩
    obtain ⟨earlier, hearlier, hclash⟩ := hholding.taken_iff.mp htaken
    have hfalse := (List.pairwise_append.mp hpairwise).2.2 earlier (hholding.sublist.subset hearlier)
      binding List.mem_cons_self
    rw [hclash] at hfalse
    cases hfalse
  · rename_i htaken
    refine ⟨kept ++ [binding], ?_, hholding.sublist.append (List.Sublist.refl _), ?_, fun hpairwise => ?_⟩
    · simp only [List.map_insertIdx]
      rw [← place_unnamed, unnamed_ofMount, hholding.bindings, arranged_concat]
    · refine List.pairwise_append.mpr ⟨hholding.apart, List.pairwise_singleton _ _, ?_⟩
      intro earlier hearlier other hother
      rw [List.mem_singleton.mp hother]
      exact Bool.eq_false_iff.mpr fun hclash => htaken (hholding.taken_iff.mpr ⟨earlier, hearlier, hclash⟩)
    · rw [hholding.complete (List.pairwise_append.mp hpairwise).1]

theorem of_build {group : List RouteBinding}
    (hbuild : Lib.Grouping.build (tableOf decoder) (addTo decoder) group = some table) :
    ∃ kept, Holding decoder table group kept := by
  refine Lib.Grouping.build_induct (fun binding => ⟨_, start binding⟩) ?_ hbuild
  rintro _ binding _ - ⟨kept, hkept⟩
  exact hkept.add binding

end Holding

theorem splitCommaSpace_append {token : Text} (hcomma : 44 ∉ token) (rest : Text) :
    Ranked.splitCommaSpace (token ++ PathTable.commaSpace ++ rest) =
      token :: Ranked.splitCommaSpace rest := by
  induction token with
  | nil => rfl
  | cons first token ih =>
      obtain ⟨hfirst, htoken⟩ := not_or.mp (mt List.mem_cons.mpr hcomma)
      obtain ⟨second, more, hmore⟩ : ∃ second more,
          token ++ PathTable.commaSpace ++ rest = second :: more := by
        cases token with
        | nil => exact ⟨_, _, rfl⟩
        | cons second token => exact ⟨_, _, rfl⟩
      have hne : [first, second] ≠ PathTable.commaSpace := fun heq =>
        hfirst (List.cons.inj heq).1.symm
      rw [List.cons_append, List.cons_append, hmore, Ranked.splitCommaSpace, if_neg hne, ← hmore,
        ih htoken, List.modifyHead_cons]

theorem splitCommaSpace_of_notMem {token : Text} (hcomma : 44 ∉ token) :
    Ranked.splitCommaSpace token = [token] := by
  induction token with
  | nil => rfl
  | cons first token ih =>
      obtain ⟨hfirst, htoken⟩ := not_or.mp (mt List.mem_cons.mpr hcomma)
      cases token with
      | nil => rfl
      | cons second token =>
          have hne : [first, second] ≠ PathTable.commaSpace := fun heq =>
            hfirst (List.cons.inj heq).1.symm
          rw [Ranked.splitCommaSpace, if_neg hne, ih htoken, List.modifyHead_cons]

theorem splitCommaSpace_intercalate {tokens : List Text} (hne : tokens ≠ [])
    (hcomma : ∀ token ∈ tokens, 44 ∉ token) :
    Ranked.splitCommaSpace (PathTable.commaSpace.intercalate tokens) = tokens := by
  induction tokens with
  | nil => exact absurd rfl hne
  | cons first rest ih =>
      have hfirst := hcomma first List.mem_cons_self
      cases rest with
      | nil => rw [List.intercalate_singleton, splitCommaSpace_of_notMem hfirst]
      | cons second rest =>
          rw [List.intercalate_cons_cons, splitCommaSpace_append hfirst, ih (List.cons_ne_nil _ _)
            fun token htoken => hcomma token (List.mem_cons_of_mem _ htoken)]

theorem comma_notMem_asStr (method : RouteMethod) : 44 ∉ method.asStr := by
  cases method with
  | any => decide
  | one method =>
      have hvalid := (Bool.and_eq_true _ _ ▸ method.valid :
        (!method.token.isEmpty) = true ∧ method.token.all isTokenChar = true).2
      intro hmem
      exact absurd (List.all_eq_true.mp hvalid 44 hmem) (by decide)

theorem mem_allow_iff {table : PathTable} {answers : Binding → Bool}
    (hany : table.bindings.any answers = true) (token : Text) :
    token ∈ Ranked.splitCommaSpace (table.allow (table.admitsAt answers)) ↔
      token ∈ PathTable.admittedMethods answers table.bindings ∨
        token = str "HEAD" ∧ str "GET" ∈ PathTable.admittedMethods answers table.bindings := by
  obtain ⟨binding, hbinding, hadmits⟩ := List.any_eq_true.mp hany
  have hmethod : binding.entry.httpMethod.asStr ∈ PathTable.admittedMethods answers table.bindings :=
    List.mem_map_of_mem (List.mem_filter.mpr ⟨hbinding, hadmits⟩)
  have hne : PathTable.allowTokens (PathTable.admittedMethods answers table.bindings) ≠ [] := by
    intro hnil
    have hmem := PathTable.mem_allowTokens_iff.mpr (Or.inl hmethod)
    rw [hnil] at hmem
    cases hmem
  have hcomma : ∀ token ∈ PathTable.allowTokens (PathTable.admittedMethods answers table.bindings),
      44 ∉ token := by
    intro token htoken
    rcases PathTable.mem_allowTokens_iff.mp htoken with htoken | ⟨rfl, -⟩
    · obtain ⟨other, -, rfl⟩ := List.mem_map.mp htoken
      exact comma_notMem_asStr _
    · decide
  rw [PathTable.allow_eq, splitCommaSpace_intercalate hne hcomma, PathTable.mem_allowTokens_iff]

/-! ### The binding that answers -/

/-- The tests of `choose_ranked`: a binding without a verb, or one with the verb of the request. -/
inductive Admission (path : Text) : (Binding → Bool) → Prop
  | plain : Admission path (Routes.isPlain path)
  | bound (rest verb : Text) : Admission path (Routes.isBound path rest verb)

section Order

variable {path : Text} {answers : Binding → Bool}

theorem Admission.unnamed (h : Admission path answers) (binding : Binding) :
    answers binding.unnamed = answers binding := by
  cases h <;> rfl

theorem claim_of_open {binding : RouteBinding} (hopen : binding.constrained = false) :
    binding.claim.literals = [] ∧ binding.claim.template = none := by
  rw [RouteBinding.constrained, Bool.or_eq_false_iff, Bool.not_eq_false', List.isEmpty_iff,
    Option.isSome_eq_false_iff, Option.isNone_iff_eq_none] at hopen
  exact hopen

theorem Admission.verb_eq (h : Admission path answers) {binding other : RouteBinding}
    (hadmits : answers (binding.held decoder) = true) (hadmits' : answers (other.held decoder) = true) :
    binding.claim.verb.map normalizeEscapes = other.claim.verb.map normalizeEscapes := by
  cases h with
  | plain =>
      have hnone : ∀ {b : RouteBinding}, Routes.isPlain path (b.held decoder) = true →
          b.claim.verb = none := by
        intro b hb
        rw [Routes.isPlain, Bool.and_eq_true] at hb
        simpa [RouteBinding.held, Binding.ofMount, RouteBinding.claim, MountedPath.claim] using hb.1
      rw [hnone hadmits, hnone hadmits']
  | bound rest verb =>
      have hsome : ∀ {b : RouteBinding}, Routes.isBound path rest verb (b.held decoder) = true →
          b.claim.verb.map normalizeEscapes = some verb := by
        intro b hb
        rw [Routes.isBound, Bool.and_eq_true, Option.any_eq_true] at hb
        obtain ⟨own, hown, hraw⟩ := hb.1
        rw [Bool.and_eq_true, decide_eq_true_eq] at hraw
        obtain ⟨raw, hverb, rfl⟩ := Option.map_eq_some_iff.mp hown
        rw [show b.claim.verb = some raw from hverb, Option.map_some, ← hraw.1]
        rfl
      rw [hsome hadmits, hsome hadmits']

/-- Open bindings that a request reaches clash when one could answer for the other. -/
theorem Admission.clash (h : Admission path answers) {binding other : RouteBinding}
    (hopen : binding.constrained = false) (hopen' : other.constrained = false)
    (hadmits : answers (binding.held decoder) = true) (hadmits' : answers (other.held decoder) = true)
    (hmethod : binding.entry.httpMethod = other.entry.httpMethod ∨ binding.entry.httpMethod = .any ∨
      other.entry.httpMethod = .any) :
    clash binding.claim other.claim = true := by
  obtain ⟨hliterals, htemplate⟩ := claim_of_open hopen
  obtain ⟨hliterals', htemplate'⟩ := claim_of_open hopen'
  refine clash_iff.mpr ⟨h.verb_eq hadmits hadmits', ?_, ?_, hmethod⟩
  · rw [htemplate, htemplate']
  · rw [hliterals, hliterals']

def servedEntry (method : Method) (answers : Binding → Bool) (bindings : List Binding) :
    Option RouteEntry :=
  ((bindings.find? fun binding => answers binding && binding.serves method).or
    (if method = Method.HEAD then bindings.find? fun binding => answers binding && binding.isGet
      else none)).map Binding.entry

theorem getElem?_of_findIdx? {bindings : List Binding} {p : Binding → Bool} {index : Nat}
    (h : bindings.findIdx? p = some index) : ∃ binding, bindings[index]? = some binding :=
  ⟨_, List.getElem?_eq_getElem (List.findIdx?_eq_some_iff_findIdx_eq.mp h).1⟩

theorem getElem?_served {table : PathTable} {method : Method} {index : Nat}
    (h : table.served method answers = some index) :
    ∃ binding, table.bindings[index]? = some binding := by
  unfold PathTable.served at h
  rcases Option.or_eq_some_iff.mp h with hfirst | ⟨-, hget⟩
  · exact getElem?_of_findIdx? hfirst
  · split at hget
    · exact getElem?_of_findIdx? hget
    · cases hget

theorem entry_served (table : PathTable) (method : Method) (answers : Binding → Bool) :
    ((table.served method answers).bind fun index => table.bindings[index]?).map Binding.entry =
      servedEntry method answers table.bindings := by
  unfold PathTable.served servedEntry
  rw [List.find?_eq_bind_findIdx?_getElem?]
  cases hfirst : table.bindings.findIdx? fun binding => answers binding && binding.serves method with
  | some index =>
      obtain ⟨binding, hbinding⟩ := getElem?_of_findIdx? hfirst
      simp [hbinding]
  | none =>
      split
      · rw [List.find?_eq_bind_findIdx?_getElem?]
        simp
      · rfl

theorem servedEntry_unnamed (h : Admission path answers) (method : Method) (bindings : List Binding) :
    servedEntry method answers (bindings.map Binding.unnamed) =
      servedEntry method answers bindings := by
  have hfind : ∀ p : Binding → Bool, (∀ binding : Binding, p binding.unnamed = p binding) →
      (bindings.map Binding.unnamed).find? p = (bindings.find? p).map Binding.unnamed := by
    intro p hp
    rw [List.find?_map]
    congr 2
    funext binding
    exact hp binding
  unfold servedEntry
  rw [hfind _ fun binding => by rw [h.unnamed]; rfl, hfind _ fun binding => by rw [h.unnamed]; rfl]
  cases bindings.find? fun binding => answers binding && binding.serves method with
  | some binding => rfl
  | none =>
      split
      · cases bindings.find? fun binding => answers binding && binding.isGet <;> rfl
      · rfl

/-- The same bindings, the constrained ones in the same order, none of them clashing. -/
structure Redeclared (bindings bindings' : List RouteBinding) : Prop where
  perm : bindings.Perm bindings'
  constrained : bindings.filter RouteBinding.constrained = bindings'.filter RouteBinding.constrained
  apart : bindings.Pairwise fun earlier later => clash earlier.claim later.claim = false

namespace Redeclared

variable {bindings bindings' : List RouteBinding}

theorem apart' (h : Redeclared bindings bindings') :
    bindings'.Pairwise fun earlier later => clash earlier.claim later.claim = false :=
  h.perm.pairwise h.apart fun {earlier later} hclash => by rwa [clash_comm]

theorem find?_arranged (h : Redeclared bindings bindings') {p : Binding → Bool}
    (hclash : ∀ binding other : RouteBinding, binding.constrained = false →
      other.constrained = false → p (binding.held decoder) = true → p (other.held decoder) = true →
        clash binding.claim other.claim = true) :
    (arranged decoder bindings).find? p = (arranged decoder bindings').find? p := by
  have hopen : (bindings.filter fun binding => !binding.constrained).find? (p ∘ RouteBinding.held decoder) =
      (bindings'.filter fun binding => !binding.constrained).find? (p ∘ RouteBinding.held decoder) := by
    refine Lib.find?_perm (h.perm.filter _) fun binding hbinding other hother hp hp' => ?_
    obtain ⟨hbinding, hopen⟩ := List.mem_filter.mp hbinding
    obtain ⟨hother, hopen'⟩ := List.mem_filter.mp hother
    have htrue := hclash binding other (by simpa using hopen) (by simpa using hopen') hp hp'
    by_contra hne
    have hsymm : Std.Symm fun earlier later : RouteBinding =>
        clash earlier.claim later.claim = false := ⟨fun a b hab => by rwa [clash_comm]⟩
    rw [h.apart.forall hbinding hother hne] at htrue
    cases htrue
  rw [arranged, arranged, List.find?_map, List.find?_map, List.find?_append, List.find?_append,
    h.constrained, hopen]

theorem servedEntry_arranged (h : Redeclared bindings bindings') (hadmission : Admission path answers)
    (method : Method) :
    servedEntry method answers (arranged decoder bindings) =
      servedEntry method answers (arranged decoder bindings') := by
  have hserves : (arranged decoder bindings).find?
        (fun binding => answers binding && binding.serves method) =
      (arranged decoder bindings').find? fun binding => answers binding && binding.serves method := by
    refine h.find?_arranged fun binding other hopen hopen' hp hp' => ?_
    rw [Bool.and_eq_true] at hp hp'
    refine hadmission.clash hopen hopen' hp.1 hp'.1 ?_
    have hmethod : ∀ {b : RouteBinding}, (b.held decoder).serves method = true →
        b.entry.httpMethod = .any ∨ b.entry.httpMethod = .one method := by
      intro b hb
      rwa [Binding.serves, Bool.or_eq_true, decide_eq_true_eq, decide_eq_true_eq] at hb
    rcases hmethod hp.2 with hany | hone
    · exact Or.inr (Or.inl hany)
    · rcases hmethod hp'.2 with hany' | hone'
      · exact Or.inr (Or.inr hany')
      · exact Or.inl (hone.trans hone'.symm)
  have hget : (arranged decoder bindings).find? (fun binding => answers binding && binding.isGet) =
      (arranged decoder bindings').find? fun binding => answers binding && binding.isGet := by
    refine h.find?_arranged fun binding other hopen hopen' hp hp' => ?_
    rw [Bool.and_eq_true, Binding.isGet, decide_eq_true_eq] at hp hp'
    exact hadmission.clash hopen hopen' hp.1 hp'.1 (Or.inl (hp.2.trans hp'.2.symm))
  rw [servedEntry, servedEntry, hserves, hget]

end Redeclared

/-! ### Two tables of the same bindings -/

/-- Two tables answer alike: the same entry, a refusal with the same methods, or nothing. -/
def PathTable.Agree (table other : PathTable) : Option Choice → Option Choice → Prop
  | some (.route _ index), some (.route _ index') =>
      ∃ entry, (table.bindings[index]?).map Binding.entry = some entry ∧
        (other.bindings[index']?).map Binding.entry = some entry
  | some (.methodNotAllowed _ allow), some (.methodNotAllowed _ allow') =>
      ∀ token, token ∈ Ranked.splitCommaSpace allow ↔ token ∈ Ranked.splitCommaSpace allow'
  | none, none => True
  | _, _ => False

theorem PathTable.agree_choose {table other : PathTable} {method : Method} (position : Nat)
    (hentry : servedEntry method answers table.bindings = servedEntry method answers other.bindings)
    (hmethods : ∀ token, token ∈ admittedMethods answers table.bindings ↔
      token ∈ admittedMethods answers other.bindings) :
    table.Agree other (table.choose position method answers)
      (other.choose position method answers) := by
  have hany : ∀ list : List Binding,
      list.any answers = true ↔ ∃ token, token ∈ admittedMethods answers list := by
    intro list
    rw [List.any_eq_true]
    constructor
    · rintro ⟨binding, hbinding, hadmits⟩
      exact ⟨_, List.mem_map_of_mem (List.mem_filter.mpr ⟨hbinding, hadmits⟩)⟩
    · rintro ⟨token, htoken⟩
      obtain ⟨binding, hbinding, -⟩ := List.mem_map.mp htoken
      exact ⟨binding, List.mem_filter.mp hbinding⟩
  have hsame : table.bindings.any answers = other.bindings.any answers := by
    rw [Bool.eq_iff_iff, hany, hany]
    exact exists_congr hmethods
  rw [← entry_served, ← entry_served] at hentry
  rw [choose_eq, choose_eq]
  cases hserved : table.served method answers with
  | some index =>
      obtain ⟨binding, hbinding⟩ := getElem?_served hserved
      rw [hserved, Option.bind_some, hbinding, Option.map_some] at hentry
      cases hserved' : other.served method answers with
      | some index' =>
          rw [hserved', Option.bind_some] at hentry
          exact ⟨binding.entry, by rw [hbinding]; rfl, hentry.symm⟩
      | none =>
          rw [hserved'] at hentry
          cases hentry
  | none =>
      cases hserved' : other.served method answers with
      | some index' =>
          obtain ⟨binding, hbinding⟩ := getElem?_served hserved'
          rw [hserved, hserved', Option.bind_some, hbinding] at hentry
          cases hentry
      | none =>
          cases hadmits : other.bindings.any answers with
          | true =>
              rw [hadmits] at hsame
              simp only [hsame, if_true]
              intro token
              rw [mem_allow_iff hsame, mem_allow_iff hadmits, hmethods, hmethods]
          | false =>
              rw [hadmits] at hsame
              simp only [hsame, Bool.false_eq_true, if_false]
              trivial

theorem Holding.mem_admittedMethods {table : PathTable} {declared kept : List RouteBinding}
    (h : Holding decoder table declared kept) (hadmission : Admission path answers) (token : Text) :
    token ∈ PathTable.admittedMethods answers table.bindings ↔
      ∃ binding ∈ kept, answers (binding.held decoder) = true ∧ binding.entry.httpMethod.asStr = token := by
  have hmem : (∃ held ∈ table.bindings, answers held = true ∧ held.entry.httpMethod.asStr = token) ↔
      ∃ held ∈ arranged decoder kept, answers held = true ∧ held.entry.httpMethod.asStr = token := by
    rw [← h.bindings]
    simp only [List.mem_map, exists_exists_and_eq_and, hadmission.unnamed]
    rfl
  simp only [PathTable.admittedMethods, List.mem_map, List.mem_filter, and_assoc]
  rw [hmem]
  simp only [mem_arranged]
  constructor
  · rintro ⟨-, ⟨binding, hbinding, rfl⟩, hadmits⟩
    exact ⟨binding, hbinding, hadmits⟩
  · rintro ⟨binding, hbinding, hadmits⟩
    exact ⟨_, ⟨binding, hbinding, rfl⟩, hadmits⟩

theorem Holding.pairwise {table : PathTable} {declared kept : List RouteBinding}
    (h : Holding decoder table declared kept) :
    (table.bindings.Pairwise fun held held' => clash held.claim held'.claim = false) ∧
      table.bindings.Pairwise fun held held' => held'.constrained = true → held.constrained = true := by
  have hheld : (arranged decoder kept).Pairwise fun held held' =>
      clash held.claim held'.claim = false ∧ (held'.constrained = true → held.constrained = true) := by
    rw [arranged, List.pairwise_map, List.pairwise_and_iff]
    constructor
    · refine List.Pairwise.imp ?_ ((List.filter_append_perm _ kept).symm.pairwise h.apart
        fun {earlier later} hclash => by rwa [clash_comm])
      intro earlier later hclash
      rwa [RouteBinding.held, RouteBinding.held, clash_ofMount, clash_comm, clash_ofMount, clash_comm]
    · simp only [constrained_held]
      refine List.pairwise_append.mpr ⟨?_, ?_, ?_⟩
      · refine List.Pairwise.imp_of_mem ?_ (List.pairwise_of_forall fun _ _ => trivial)
        intro earlier later hearlier _ _ _
        exact (List.mem_filter.mp hearlier).2
      · refine List.Pairwise.imp_of_mem ?_ (List.pairwise_of_forall fun _ _ => trivial)
        intro earlier later _ hlater _ hconstrained
        have hopen := (List.mem_filter.mp hlater).2
        rw [hconstrained] at hopen
        cases hopen
      · intro earlier hearlier later _ _
        exact (List.mem_filter.mp hearlier).2
  rw [← h.bindings, List.pairwise_map, List.pairwise_and_iff] at hheld
  exact hheld

/-- **Declaration order matters only among constrained bindings**, and what a table holds after any
declarations neither clashes nor has an open binding before a constrained one. -/
theorem declaration_order (decoder : PercentDecoder) :
    (∀ (bindings bindings' : List RouteBinding) (table table' : PathTable),
      Redeclared bindings bindings' →
      Lib.Grouping.build (tableOf decoder) (addTo decoder) bindings = some table →
      Lib.Grouping.build (tableOf decoder) (addTo decoder) bindings' = some table' →
      ∀ (position : Nat) (method : Method) (path : Text) (answers : Binding → Bool),
        Admission path answers → table.Agree table' (table.choose position method answers)
          (table'.choose position method answers)) ∧
    ∀ (bindings : List RouteBinding) (table : PathTable),
      Lib.Grouping.build (tableOf decoder) (addTo decoder) bindings = some table →
        (table.bindings.Pairwise fun held held' => clash held.claim held'.claim = false) ∧
        (table.bindings.Pairwise fun held held' => held'.constrained = true → held.constrained = true) ∧
        (table.plain = true ↔ ∃ held ∈ table.bindings, held.verb = none) := by
  constructor
  · intro bindings bindings' table table' hredeclared hbuild hbuild' position method path answers
      hadmission
    obtain ⟨kept, hholding⟩ := Holding.of_build hbuild
    obtain ⟨kept', hholding'⟩ := Holding.of_build hbuild'
    obtain rfl := hholding.complete hredeclared.apart
    obtain rfl := hholding'.complete hredeclared.apart'
    refine PathTable.agree_choose position ?_ fun token => ?_
    · rw [← servedEntry_unnamed hadmission, hholding.bindings,
        hredeclared.servedEntry_arranged hadmission, ← hholding'.bindings,
        servedEntry_unnamed hadmission]
    · rw [hholding.mem_admittedMethods hadmission, hholding'.mem_admittedMethods hadmission]
      simp only [hredeclared.perm.mem_iff]
  · intro bindings table hbuild
    obtain ⟨kept, hholding⟩ := Holding.of_build hbuild
    obtain ⟨hclash, hconstrained⟩ := hholding.pairwise
    refine ⟨hclash, hconstrained, ?_⟩
    rw [table.plain_eq, List.any_eq_true]
    simp only [Option.isNone_iff_eq_none]

end Order

def shelfBinding (template : Text) (method : Method) (rpc : Text) : RouteBinding where
  entry := { httpPath := template, httpMethod := .one method, grpcPath := rpc }
  mount := MountedPath.new template

def shelfBindings : List RouteBinding :=
  [shelfBinding (str "/v1/\x7bname\x7d") Method.GET (str "/Library/Get"),
    shelfBinding (str "/v1/\x7bid=main\x7d") Method.GET (str "/Library/Main"),
    shelfBinding (str "/v1/\x7bid\x7d") Method.POST (str "/Library/Put")]

theorem shelves_redeclared : ∃ table table',
    Lib.Grouping.build (tableOf percentDecoder) (addTo percentDecoder) shelfBindings = some table ∧
      Lib.Grouping.build (tableOf percentDecoder) (addTo percentDecoder) shelfBindings.reverse =
        some table' ∧
      table.Agree table' (table.choose 0 Method.HEAD (Routes.isPlain (str "/v1/main")))
        (table'.choose 0 Method.HEAD (Routes.isPlain (str "/v1/main"))) := by
  refine ⟨_, _, rfl, rfl, ?_⟩
  refine (declaration_order percentDecoder).1 shelfBindings shelfBindings.reverse _ _ ⟨?_, ?_, ?_⟩ rfl
    rfl 0 _ _ _ Admission.plain
  · exact (List.reverse_perm _).symm
  · decide +kernel
  · decide +kernel

end StructuredProxy

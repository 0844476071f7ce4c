import StructuredProxy.Metadata.Forward

/-!
# What is forwarded

After the loop over the names, the metadata holds for each header that passes the filters the parts of
all its values, in order and once, and nothing else. The loop fails exactly when the check refuses a
value of such a header.
-/

namespace StructuredProxy.Metadata

open Lib

variable {ε : Type} {check : Text → Text → Except ε Unit} {source : Source} {headers : Headers}

/-- The header is neither trace context nor the client's own word on its address, and metadata can have
its name. -/
def passes (source : Source) (name : Text) : Bool :=
  !(isTraceContext name || (source = .client && Addressing.owns name)) && isGrpcKey name

def forwardedValues (headers : Headers) (name : Text) : List Text :=
  (headers.getAll name).flatMap (forwardedParts name)

theorem forwardedParts_ne_nil (name value : Text) : forwardedParts name value ≠ [] := by
  unfold forwardedParts
  split
  · rw [Ne, List.map_eq_nil_iff]
    exact List.splitOn_ne_nil _ _
  · exact List.cons_ne_nil _ _

theorem forwardedValues_eq_nil_iff {name : Text} :
    forwardedValues headers name = [] ↔ headers.getAll name = [] := by
  rw [forwardedValues, List.flatMap_eq_nil_iff, List.eq_nil_iff_forall_not_mem]
  constructor
  · intro h value hvalue
    exact forwardedParts_ne_nil name value (h value hvalue)
  · intro h value hvalue
    exact absurd hvalue (h value)

def Accepts (check : Text → Text → Except ε Unit) (headers : Headers) (name : Text) : Prop :=
  ∀ value ∈ headers.getAll name, check name value = .ok ()

theorem pushValues_eq_ok_iff {name : Text} {values : List Text} : ∀ {metadata out : Headers},
    pushValues check name values metadata = .ok out ↔
      (∀ value ∈ values, check name value = .ok ()) ∧
        out = values.foldl (fun metadata value => metadata.appendAll name (forwardedParts name value))
          metadata := by
  induction values with
  | nil =>
      intro metadata out
      rw [pushValues, Except.ok.injEq, List.foldl_nil]
      simp [eq_comm]
  | cons value values ih =>
      intro metadata out
      rw [pushValues]
      cases hcheck : check name value with
      | error error => simp [hcheck]
      | ok _ =>
          dsimp only
          rw [ih, List.foldl_cons]
          simp [hcheck]

theorem getAll_pushed (name other : Text) (values : List Text) : ∀ metadata : Headers,
    (values.foldl (fun metadata value => metadata.appendAll name (forwardedParts name value))
      metadata).getAll other =
      metadata.getAll other ++ if other = name then values.flatMap (forwardedParts name) else [] := by
  induction values with
  | nil => intro metadata; simp
  | cons value values ih =>
      intro metadata
      rw [List.foldl_cons, ih, HeaderMap.getAll_appendAll]
      by_cases hname : other = name
      · simp [hname]
      · simp [hname]

theorem forwardOne_eq_ok {metadata out : Headers} {name : Text}
    (h : forwardOne check source headers metadata name = .ok out) :
    out = metadata ∧ (passes source name = false ∨ headers.getAll name = [] ∨
        metadata.containsKey name = true) ∨
      passes source name = true ∧ metadata.containsKey name = false ∧ Accepts check headers name ∧
        ∀ other, out.getAll other =
          metadata.getAll other ++ if other = name then forwardedValues headers name else [] := by
  unfold forwardOne at h
  split at h
  · next hskip =>
      rw [Except.ok.injEq] at h
      exact Or.inl ⟨h.symm, Or.inl (by rw [passes, hskip]; rfl)⟩
  · next hskip =>
      split at h
      · next hempty =>
          rw [Except.ok.injEq] at h
          exact Or.inl ⟨h.symm, Or.inr (Or.inl (List.isEmpty_iff.mp hempty))⟩
      · split at h
        · next hkey =>
            rw [Except.ok.injEq] at h
            rw [Bool.not_eq_true'] at hkey
            exact Or.inl ⟨h.symm, Or.inl (by rw [passes, hkey, Bool.and_false])⟩
        · next hkey =>
            split at h
            · next hcontains =>
                rw [Except.ok.injEq] at h
                exact Or.inl ⟨h.symm, Or.inr (Or.inr hcontains)⟩
            · next hcontains =>
                obtain ⟨haccepts, rfl⟩ := pushValues_eq_ok_iff.mp h
                rw [Bool.not_eq_true] at hskip
                rw [Bool.not_eq_true', Bool.not_eq_false] at hkey
                refine Or.inr ⟨?_, by simpa using hcontains, haccepts, fun other => ?_⟩
                · rw [passes, hskip, hkey]
                  rfl
                · exact getAll_pushed name other _ metadata

theorem forwardOne_isOk {metadata : Headers} {name : Text}
    (haccepts : passes source name = true → Accepts check headers name) :
    ∃ out, forwardOne check source headers metadata name = .ok out := by
  unfold forwardOne
  split
  · exact ⟨metadata, rfl⟩
  · next hskip =>
      split
      · exact ⟨metadata, rfl⟩
      · split
        · exact ⟨metadata, rfl⟩
        · next hkey =>
            split
            · exact ⟨metadata, rfl⟩
            · have hpasses : passes source name = true := by
                rw [Bool.not_eq_true] at hskip
                rw [Bool.not_eq_true', Bool.not_eq_false] at hkey
                rw [passes, hskip, hkey]
                rfl
              exact ⟨_, pushValues_eq_ok_iff.mpr ⟨haccepts hpasses, rfl⟩⟩

/-! ### All names -/

structure After (check : Text → Text → Except ε Unit) (source : Source) (headers : Headers)
    (done : List Text) (metadata : Headers) : Prop where
  values : ∀ name, metadata.getAll name =
    if passes source name = true ∧ name ∈ done then forwardedValues headers name else []
  accepted : ∀ name ∈ done, passes source name = true → Accepts check headers name

theorem After.empty : After check source headers [] HeaderMap.empty where
  values := fun name => by
    rw [if_neg (by simp)]
    rfl
  accepted := fun name hname => absurd hname (by simp)

theorem After.step {done : List Text} {metadata out : Headers} {name : Text}
    (hafter : After check source headers done metadata)
    (h : forwardOne check source headers metadata name = .ok out) :
    After check source headers (done ++ [name]) out := by
  obtain ⟨rfl, hskip⟩ | ⟨hpasses, hnew, haccepts, hout⟩ := forwardOne_eq_ok h
  · -- a skipped name changes nothing: it does not pass, has no values, or is there already
    have hdone : passes source name = true → name ∈ done ∨ headers.getAll name = [] := by
      intro hpasses
      obtain hskip | hskip | hskip := hskip
      · exact absurd hpasses (by simp [hskip])
      · exact Or.inr hskip
      · left
        rw [HeaderMap.containsKey_eq, hafter.values] at hskip
        by_contra hnot
        rw [if_neg fun hboth => hnot hboth.2] at hskip
        exact absurd hskip (by decide)
    constructor
    · intro other
      rw [hafter.values other]
      by_cases hother : other = name
      · subst hother
        by_cases hpasses : passes source other = true
        · obtain hmem | hempty := hdone hpasses
          · rw [if_pos ⟨hpasses, hmem⟩, if_pos ⟨hpasses, List.mem_append_left _ hmem⟩]
          · rw [forwardedValues_eq_nil_iff.mpr hempty, ite_self, ite_self]
        · rw [if_neg fun hboth => hpasses hboth.1, if_neg fun hboth => hpasses hboth.1]
      · simp [hother]
    · intro other hother hpasses
      obtain hother | hother := List.mem_append.mp hother
      · exact hafter.accepted other hother hpasses
      · rw [List.mem_singleton.mp hother] at hpasses ⊢
        obtain hmem | hempty := hdone hpasses
        · exact hafter.accepted name hmem hpasses
        · intro value hvalue
          rw [hempty] at hvalue
          exact absurd hvalue (by simp)
  · constructor
    · intro other
      rw [hout, hafter.values other]
      by_cases hother : other = name
      · subst hother
        have hempty : (if passes source other = true ∧ other ∈ done then
            forwardedValues headers other else []) = [] := by
          rw [← hafter.values other]
          rw [HeaderMap.containsKey_eq, Bool.not_eq_false', List.isEmpty_iff] at hnew
          exact hnew
        rw [hempty, if_pos rfl, if_pos ⟨hpasses, by simp⟩, List.nil_append]
      · simp [hother]
    · intro other hother hpasses'
      obtain hother | hother := List.mem_append.mp hother
      · exact hafter.accepted other hother hpasses'
      · rw [List.mem_singleton.mp hother]
        exact haccepts

theorem After.run {names : List Text} : ∀ {done : List Text} {metadata out : Headers},
    After check source headers done metadata →
    forwardAll check source headers names metadata = .ok out →
    After check source headers (done ++ names) out := by
  induction names with
  | nil =>
      intro done metadata out hafter h
      rw [forwardAll, Except.ok.injEq] at h
      rw [← h, List.append_nil]
      exact hafter
  | cons name names ih =>
      intro done metadata out hafter h
      rw [forwardAll] at h
      cases hone : forwardOne check source headers metadata name with
      | error error =>
          rw [hone] at h
          exact absurd h (by simp)
      | ok next =>
          rw [hone] at h
          have hrest := ih (hafter.step hone) h
          rwa [List.append_assoc, List.singleton_append] at hrest

theorem forwardAll_isOk {names : List Text} : ∀ {metadata : Headers},
    (∀ name ∈ names, passes source name = true → Accepts check headers name) →
    ∃ out, forwardAll check source headers names metadata = .ok out := by
  induction names with
  | nil => intro metadata _; exact ⟨metadata, rfl⟩
  | cons name names ih =>
      intro metadata haccepts
      obtain ⟨next, hnext⟩ :=
        @forwardOne_isOk ε check source headers metadata name (haccepts name List.mem_cons_self)
      obtain ⟨out, hout⟩ := @ih next fun other hother => haccepts other (List.mem_cons_of_mem _ hother)
      refine ⟨out, ?_⟩
      rw [forwardAll, hnext]
      exact hout

theorem forwardAll_isOk_iff {names : List Text} :
    (∃ out, forwardAll check source headers names HeaderMap.empty = .ok out) ↔
      ∀ name ∈ names, passes source name = true → Accepts check headers name := by
  constructor
  · rintro ⟨out, hout⟩ name hname
    exact (After.empty.run hout).accepted name (List.mem_append_right _ hname)
  · intro haccepts
    exact forwardAll_isOk haccepts

theorem getAll_foldl_appendAscii (key other : Text) (values : List Text) : ∀ metadata : Headers,
    (values.foldl (fun metadata value => appendAscii metadata key value) metadata).getAll other =
      metadata.getAll other ++ if other = key then values.filter isAsciiValue else [] := by
  induction values with
  | nil => intro metadata; simp
  | cons value values ih =>
      intro metadata
      rw [List.foldl_cons, ih, appendAscii]
      by_cases hvalue : isAsciiValue value = true
      · rw [if_pos hvalue, List.filter_cons_of_pos hvalue]
        by_cases hother : other = key
        · rw [hother, HeaderMap.getAll_append_self, if_pos rfl, if_pos rfl, List.append_assoc,
            List.singleton_append]
        · rw [HeaderMap.getAll_append_of_ne hother, if_neg hother, if_neg hother]
      · rw [if_neg hvalue, List.filter_cons_of_neg hvalue]

theorem getAll_injectTraceContext (random : Random) (metadata : Headers) {name : Text}
    (hparent : name ≠ traceparent) (hstate : name ≠ tracestate) :
    (injectTraceContext random headers metadata).getAll name = metadata.getAll name := by
  unfold injectTraceContext
  split
  · rw [getAll_foldl_appendAscii, if_neg hstate, List.append_nil, insertAscii]
    split
    · exact HeaderMap.getAll_insert_of_ne hparent
    · rfl
  · split
    · exact HeaderMap.getAll_insert_of_ne hparent
    · rfl

end StructuredProxy.Metadata

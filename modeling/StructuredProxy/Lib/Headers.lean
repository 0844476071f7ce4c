import Mathlib.Data.List.Dedup

/-!
# Header maps

A multimap from names to values, as its entries in the order they were added. The values of one name
keep their order; no law below depends on the order of entries of different names.
-/

namespace StructuredProxy.Lib

structure HeaderMap (κ β : Type*) where
  entries : List (κ × β)
  deriving DecidableEq

namespace HeaderMap

variable {κ β : Type*} [DecidableEq κ]

def getAll (name : κ) (headers : HeaderMap κ β) : List β :=
  (headers.entries.filter fun entry => entry.1 = name).map Prod.snd

def containsKey (name : κ) (headers : HeaderMap κ β) : Bool :=
  headers.entries.any fun entry => entry.1 = name

def remove (name : κ) (headers : HeaderMap κ β) : HeaderMap κ β :=
  ⟨headers.entries.filter fun entry => entry.1 ≠ name⟩

def append (name : κ) (value : β) (headers : HeaderMap κ β) : HeaderMap κ β :=
  ⟨headers.entries ++ [(name, value)]⟩

def insert (name : κ) (value : β) (headers : HeaderMap κ β) : HeaderMap κ β :=
  (headers.remove name).append name value

variable {name other : κ} {value : β} {headers : HeaderMap κ β}

@[simp]
theorem getAll_remove_self : (headers.remove name).getAll name = [] := by
  simp [getAll, remove, List.filter_filter]

theorem getAll_remove_of_ne (hne : other ≠ name) :
    (headers.remove name).getAll other = headers.getAll other := by
  rw [getAll, getAll, remove, List.filter_filter]
  congr 1
  apply List.filter_congr
  rintro ⟨key, v⟩ -
  by_cases hkey : key = other
  · simp [hkey, hne]
  · simp [hkey]

@[simp]
theorem getAll_append_self :
    (headers.append name value).getAll name = headers.getAll name ++ [value] := by
  simp [getAll, append]

theorem getAll_append_of_ne (hne : other ≠ name) :
    (headers.append name value).getAll other = headers.getAll other := by
  simp [getAll, append, Ne.symm hne]

@[simp]
theorem getAll_insert_self : (headers.insert name value).getAll name = [value] := by
  simp [insert]

theorem getAll_insert_of_ne (hne : other ≠ name) :
    (headers.insert name value).getAll other = headers.getAll other := by
  rw [insert, getAll_append_of_ne hne, getAll_remove_of_ne hne]

theorem getAll_insert : (headers.insert name value).getAll other =
    if other = name then [value] else headers.getAll other := by
  split
  · rename_i h
    rw [h, getAll_insert_self]
  · rename_i h
    exact getAll_insert_of_ne h

theorem containsKey_eq : headers.containsKey name = !(headers.getAll name).isEmpty := by
  rw [containsKey, getAll, List.isEmpty_map, Bool.eq_iff_iff]
  simp

def keys (headers : HeaderMap κ β) : List κ := (headers.entries.map Prod.fst).eraseDups

theorem mem_keys : name ∈ headers.keys ↔ headers.containsKey name = true := by
  rw [keys, List.mem_eraseDups, containsKey]
  simp

def empty : HeaderMap κ β := ⟨[]⟩

def insertAll (source headers : HeaderMap κ β) : HeaderMap κ β :=
  source.entries.foldl (fun headers entry => headers.insert entry.1 entry.2) headers

def Single (headers : HeaderMap κ β) : Prop := (headers.entries.map Prod.fst).Nodup

omit [DecidableEq κ] in
theorem single_empty : (empty : HeaderMap κ β).Single := List.nodup_nil

theorem Single.insert (h : headers.Single) (name : κ) (value : β) :
    (headers.insert name value).Single := by
  have hentries : ((headers.insert name value).entries.map Prod.fst) =
      ((headers.entries.filter fun entry => decide (entry.1 ≠ name)).map Prod.fst) ++ [name] := by
    rw [HeaderMap.insert, append, remove, List.map_append, List.map_singleton]
  rw [Single, hentries, List.nodup_append]
  refine ⟨(List.filter_sublist.map _).nodup h, List.nodup_singleton name, ?_⟩
  intro a ha b hb
  rw [List.mem_singleton] at hb
  obtain ⟨entry, hentry, rfl⟩ := List.mem_map.mp ha
  rw [hb]
  simpa using (List.mem_filter.mp hentry).2

theorem getAll_insertAll {source : HeaderMap κ β} (hsingle : source.Single) :
    (source.insertAll headers).getAll name =
      if source.containsKey name then source.getAll name else headers.getAll name := by
  obtain ⟨entries⟩ := source
  induction entries generalizing headers with
  | nil => rfl
  | cons entry entries ih =>
      obtain ⟨key, value⟩ := entry
      rw [Single, List.map_cons, List.nodup_cons] at hsingle
      have hrest : (insertAll ⟨entries⟩ (headers.insert key value)).getAll name = _ := ih hsingle.2
      have hfold : insertAll ⟨(key, value) :: entries⟩ headers =
          insertAll ⟨entries⟩ (headers.insert key value) := rfl
      rw [hfold, hrest]
      by_cases hname : key = name
      · subst hname
        have habsent : containsKey key ⟨entries⟩ = false := by
          rw [← Bool.not_eq_true, ← mem_keys, keys, List.mem_eraseDups]
          exact hsingle.1
        have hnone : entries.filter (fun entry => decide (entry.1 = key)) = [] := by
          rw [containsKey_eq, getAll, List.isEmpty_map] at habsent
          simpa using habsent
        rw [habsent, if_neg (by simp), getAll_insert_self]
        simp [containsKey, getAll, hnone]
      · have hcontains : containsKey name ⟨(key, value) :: entries⟩ = containsKey name ⟨entries⟩ := by
          simp [containsKey, hname]
        have hget : getAll name ⟨(key, value) :: entries⟩ = getAll name ⟨entries⟩ := by
          simp [getAll, hname]
        rw [getAll_insert_of_ne (Ne.symm hname), hcontains, hget]

/-! ### Taking a map apart -/

/-- What a map that is taken apart yields for one name: the name with its first value only. -/
def block (headers : HeaderMap κ β) (name : κ) : List (Option κ × β) :=
  match headers.getAll name with
  | [] => []
  | value :: rest => (some name, value) :: rest.map fun value => (none, value)

/-- The map is taken apart into `stream`: every name once, in some order. -/
def Yields (headers : HeaderMap κ β) (stream : List (Option κ × β)) : Prop :=
  ∃ names : List κ, names.Nodup ∧ (∀ name, name ∈ names ↔ headers.containsKey name = true) ∧
    stream = names.flatMap headers.block

def stream (headers : HeaderMap κ β) : List (Option κ × β) :=
  (headers.entries.map Prod.fst).dedup.flatMap headers.block

theorem yields_stream (headers : HeaderMap κ β) : headers.Yields headers.stream := by
  refine ⟨(headers.entries.map Prod.fst).dedup, List.nodup_dedup _, fun name => ?_, rfl⟩
  rw [List.mem_dedup, containsKey]
  simp

theorem getAll_eq_nil_of_notMem {names : List κ}
    (hnames : ∀ name, name ∈ names ↔ headers.containsKey name = true) (h : name ∉ names) :
    headers.getAll name = [] := by
  rw [hnames, containsKey_eq, Bool.not_eq_true, Bool.not_eq_false', List.isEmpty_iff] at h
  exact h

/-- A loop over the parts of a map is one over its names, when it treats the values of a name as one. -/
theorem foldl_flatMap_block {σ : Type*} {step : σ → Option κ × β → σ} {whole : σ → κ → List β → σ}
    (hblock : ∀ s name value rest,
      ((some name, value) :: rest.map fun value => (none, value)).foldl step s =
        whole s name (value :: rest)) {names : List κ} :
    (∀ name ∈ names, headers.getAll name ≠ []) → ∀ s : σ,
      (names.flatMap headers.block).foldl step s =
        names.foldl (fun s name => whole s name (headers.getAll name)) s := by
  induction names with
  | nil => intro _ s; rfl
  | cons name names ih =>
      intro hne s
      obtain ⟨value, rest, hvalues⟩ := List.exists_cons_of_ne_nil (hne name List.mem_cons_self)
      have hthis : headers.block name = (some name, value) :: rest.map fun value => (none, value) := by
        rw [block, hvalues]
      rw [List.flatMap_cons, List.foldl_append, hthis, hblock,
        ih fun other hother => hne other (List.mem_cons_of_mem _ hother), List.foldl_cons, hvalues]

theorem getAll_ne_nil {names : List κ}
    (hnames : ∀ name, name ∈ names ↔ headers.containsKey name = true) :
    ∀ name ∈ names, headers.getAll name ≠ [] := by
  intro name hname
  rw [hnames, containsKey_eq, Bool.not_eq_true', List.isEmpty_eq_false_iff] at hname
  exact hname

/-- What a loop over names shows of one name, when only that name's turn changes it. -/
theorem foldl_view {σ τ : Type*} {whole : σ → κ → List β → σ} {view : σ → τ} {add : τ → List β → τ}
    (hview : ∀ s key values,
      view (whole s key values) = if key = name then add (view s) values else view s)
    {names : List κ} (hnodup : names.Nodup) : ∀ s : σ,
      view (names.foldl (fun s key => whole s key (headers.getAll key)) s) =
        if name ∈ names then add (view s) (headers.getAll name) else view s := by
  induction names with
  | nil => intro s; rfl
  | cons first rest ih =>
      intro s
      obtain ⟨hfirst, hrest⟩ := List.nodup_cons.mp hnodup
      rw [List.foldl_cons, ih hrest, hview]
      by_cases hname : first = name
      · subst hname
        rw [if_neg hfirst, if_pos rfl, if_pos List.mem_cons_self]
      · rw [if_neg hname]
        simp only [List.mem_cons, Ne.symm hname, false_or]

/-- **Reading a map that is taken apart**: a loop that treats the values of a name as one, and shows of
a name what that name's values add, shows what all of the map's values of it add, in whatever order
the names come. -/
theorem Yields.foldl_view {σ τ : Type*} {step : σ → Option κ × β → σ} {whole : σ → κ → List β → σ}
    {stream : List (Option κ × β)} (h : headers.Yields stream) (view : σ → τ)
    (add : τ → List β → τ)
    (hblock : ∀ s name value rest,
      ((some name, value) :: rest.map fun value => (none, value)).foldl step s =
        whole s name (value :: rest))
    (hview : ∀ s key values,
      view (whole s key values) = if key = name then add (view s) values else view s)
    (hnil : ∀ t, add t [] = t) (s : σ) :
    view (stream.foldl step s) = add (view s) (headers.getAll name) := by
  obtain ⟨names, hnodup, hnames, rfl⟩ := h
  rw [foldl_flatMap_block hblock (getAll_ne_nil hnames), HeaderMap.foldl_view hview hnodup]
  split
  · rfl
  · next hname => rw [getAll_eq_nil_of_notMem hnames hname, hnil]

def appendAll (name : κ) (values : List β) (headers : HeaderMap κ β) : HeaderMap κ β :=
  values.foldl (fun headers value => headers.append name value) headers

theorem getAll_appendAll (name other : κ) (values : List β) : ∀ headers : HeaderMap κ β,
    (headers.appendAll name values).getAll other =
      headers.getAll other ++ if other = name then values else [] := by
  induction values with
  | nil => intro headers; simp [appendAll]
  | cons value values ih =>
      intro headers
      have hstep : headers.appendAll name (value :: values) =
          (headers.append name value).appendAll name values := rfl
      rw [hstep, ih]
      by_cases hname : other = name
      · rw [hname, getAll_append_self]
        simp
      · rw [getAll_append_of_ne hname, if_neg hname, if_neg hname]

end HeaderMap

end StructuredProxy.Lib

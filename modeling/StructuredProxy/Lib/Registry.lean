import StructuredProxy.Lib.Fallible
import StructuredProxy.Lib.KeyMap

/-!
# Registering what the nodes of a graph hold

A node has a key and a value and holds other nodes, in cycles too. To register a node whose key is free,
a placeholder goes under its key, the nodes it holds are registered, and its value replaces the
placeholder; a key that is taken stays as it is. The calls nest no deeper than there are free keys.

A node is registered for the sake of a key, its own or that of a node below it. Where its own key is
taken by another node, nothing puts the wanted key there; every value stands over the keys it wants as
long as a node whose key is taken finds the wanted key too.
-/

namespace StructuredProxy.Lib

namespace KeyMap

variable {κ β : Type*} [DecidableEq κ]

theorem isSome_get_set {m : KeyMap κ β} {k j : κ} {v : β} :
    ((m.set k v).get j).isSome = true ↔ j = k ∨ (m.get j).isSome = true := by
  by_cases heq : j = k
  · subst heq
    simp
  · rw [get_set_of_ne heq]
    simp [heq]

def Grows (m m' : KeyMap κ β) : Prop := ∀ k, (m.get k).isSome = true → (m'.get k).isSome = true

theorem Grows.refl (m : KeyMap κ β) : m.Grows m := fun _ h => h

theorem Grows.trans {m m' m'' : KeyMap κ β} (h : m.Grows m') (h' : m'.Grows m'') : m.Grows m'' :=
  fun k hk => h' k (h k hk)

theorem grows_set (m : KeyMap κ β) (k : κ) (v : β) : m.Grows (m.set k v) :=
  fun _ h => isSome_get_set.mpr (Or.inr h)

def Extends (m m' : KeyMap κ β) : Prop := ∀ k v, m.get k = some v → m'.get k = some v

theorem Extends.grows {m m' : KeyMap κ β} (h : m.Extends m') : m.Grows m' := by
  intro k hk
  obtain ⟨v, hv⟩ := Option.isSome_iff_exists.mp hk
  rw [h k v hv]
  rfl

end KeyMap

structure Registry (ν κ β : Type) where
  key : ν → κ
  value : ν → β
  /-- The nodes registered for a node, each with the key it is registered for. -/
  wants : ν → List (ν × κ)
  placeholder : β

namespace Registry

variable {ν κ β : Type} [DecidableEq κ] (graph : Registry ν κ β)

def children (node : ν) : List ν := (graph.wants node).map Prod.fst

/-- Register a node, the calls nested at most `fuel` deep. -/
def register : Nat → KeyMap κ β → ν → Option (KeyMap κ β)
  | 0, _, _ => none
  | fuel + 1, store, node =>
      if (store.get (graph.key node)).isSome then some store
      else
        ((graph.children node).foldlM (register fuel)
          (store.set (graph.key node) graph.placeholder)).map
            (·.set (graph.key node) (graph.value node))

/-- Register what a node holds, then write its value, over the one of its key. -/
def write (fuel : Nat) (store : KeyMap κ β) (node : ν) : Option (KeyMap κ β) :=
  ((graph.children node).foldlM (graph.register fuel) store).map
    (·.set (graph.key node) (graph.value node))

/-- A key that is taken, or that of a node held by one of `walked`, whose nodes are being registered. -/
def found (walked : List ν) (store : KeyMap κ β) (k : κ) : Bool :=
  (store.get k).isSome || walked.any fun holder => (graph.children holder).any (graph.key · = k)

/-- Whether each node, when its turn comes and its key is taken, finds the key it is registered for. -/
def finds : Nat → List ν → KeyMap κ β → ν × κ → Bool
  | 0, _, _, _ => true
  | fuel + 1, walked, store, (node, k) =>
      if (store.get (graph.key node)).isSome then graph.found walked store k
      else
        throughout (fun store ask => graph.register fuel store ask.1) (finds fuel (node :: walked))
          (graph.wants node) (store.set (graph.key node) graph.placeholder)

/-- The same for the nodes that are registered to write `node`. -/
def findsBelow (fuel : Nat) (store : KeyMap κ β) (node : ν) : Bool :=
  throughout (fun store ask => graph.register fuel store ask.1) (graph.finds fuel [node])
    (graph.wants node) store

variable {graph} {store store' : KeyMap κ β} {node : ν} {fuel : Nat}

theorem foldlM_children (store : KeyMap κ β) (node : ν) :
    (graph.children node).foldlM (graph.register fuel) store =
      (graph.wants node).foldlM (fun store ask => graph.register fuel store ask.1) store :=
  List.foldlM_map ..

theorem foldlM_extends {step : KeyMap κ β → ν → Option (KeyMap κ β)} (nodes : List ν)
    (hstep : ∀ {store store' node}, step store node = some store' → store.Extends store')
    (h : nodes.foldlM step store = some store') : store.Extends store' := by
  intro k v hget
  have hkeep : ∀ node ∈ nodes, ∀ before after : KeyMap κ β, before.get k = some v →
      step before node = some after → after.get k = some v :=
    fun node _ before after hbefore hnode => hstep hnode k v hbefore
  exact foldlM_keeps nodes hkeep hget h

theorem register_extends (fuel : Nat) : ∀ {store store' : KeyMap κ β} {node : ν},
    graph.register fuel store node = some store' → store.Extends store' := by
  induction fuel with
  | zero =>
      intro store store' node h
      cases h
  | succ fuel ih =>
      intro store store' node h k v hget
      rw [register] at h
      split at h
      · obtain rfl := Option.some.inj h
        exact hget
      · rename_i hfree
        obtain ⟨walked, hwalked, rfl⟩ := Option.map_eq_some_iff.mp h
        have hne : k ≠ graph.key node := by
          rintro rfl
          rw [hget] at hfree
          exact hfree rfl
        rw [KeyMap.get_set_of_ne hne]
        refine foldlM_extends _ ih hwalked k v ?_
        rwa [KeyMap.get_set_of_ne hne]

theorem write_get (h : graph.write fuel store node = some store') :
    store'.get (graph.key node) = some (graph.value node) := by
  obtain ⟨walked, -, rfl⟩ := Option.map_eq_some_iff.mp h
  exact KeyMap.get_set_self

theorem write_get_of_ne (h : graph.write fuel store node = some store') {k : κ} {v : β}
    (hne : k ≠ graph.key node) (hget : store.get k = some v) : store'.get k = some v := by
  obtain ⟨walked, hwalked, rfl⟩ := Option.map_eq_some_iff.mp h
  rw [KeyMap.get_set_of_ne hne]
  exact foldlM_extends _ (register_extends fuel) hwalked k v hget

/-! ### What is registered -/

theorem found_iff {walked : List ν} {k : κ} : graph.found walked store k = true ↔
    (store.get k).isSome = true ∨ ∃ holder ∈ walked, ∃ child ∈ graph.children holder,
      graph.key child = k := by
  simp [found, List.any_eq_true]

theorem found_grow {walked walked' : List ν} {k : κ} (hgrows : store.Grows store')
    (hwalked : ∀ holder ∈ walked, holder ∈ walked') (h : graph.found walked store k = true) :
    graph.found walked' store' k = true := by
  rw [found_iff] at h ⊢
  exact h.imp (hgrows k) fun ⟨holder, hholder, hchild⟩ => ⟨holder, hwalked holder hholder, hchild⟩

theorem found_close {walked : List ν} {k : κ}
    (hchildren : ∀ child ∈ graph.children node, (store.get (graph.key child)).isSome = true)
    (h : graph.found (node :: walked) store k = true) : graph.found walked store k = true := by
  rw [found_iff] at h ⊢
  rcases h with htaken | ⟨holder, hholder, child, hchild, hkey⟩
  · exact Or.inl htaken
  · rcases List.mem_cons.mp hholder with rfl | hholder
    · left
      rw [← hkey]
      exact hchildren child hchild
    · exact Or.inr ⟨holder, hholder, child, hchild, hkey⟩

/-- Every value is that of a node with the keys it wants, but for those still to be written. -/
def Filled (graph : Registry ν κ β) (reached : ν → Prop) (walked : List ν) (store : KeyMap κ β) : Prop :=
  ∀ k v, store.get k = some v → (∃ holder ∈ walked, graph.key holder = k) ∨
    ∃ node, reached node ∧ graph.key node = k ∧ graph.value node = v ∧
      ∀ ask ∈ graph.wants node, graph.found walked store ask.2 = true

/-- A node is wanted for its own key or that of a node it holds. -/
def Below (graph : Registry ν κ β) (ask : ν × κ) : Prop :=
  ask.2 = graph.key ask.1 ∨ ∃ child ∈ graph.children ask.1, graph.key child = ask.2

structure Closed (graph : Registry ν κ β) (reached : ν → Prop) : Prop where
  step : ∀ {node}, reached node → ∀ ask ∈ graph.wants node, reached ask.1
  below : ∀ {node}, reached node → ∀ ask ∈ graph.wants node, graph.Below ask

structure Fills (graph : Registry ν κ β) (reached : ν → Prop) (walked : List ν)
    (store store' : KeyMap κ β) (asks : List (ν × κ)) : Prop where
  filled : graph.Filled reached walked store'
  grows : store.Grows store'
  registered : ∀ ask ∈ asks, (store'.get (graph.key ask.1)).isSome = true
  found : ∀ ask ∈ asks, graph.found walked store' ask.2 = true

variable {reached : ν → Prop} {walked : List ν}

theorem filled_empty : graph.Filled reached walked KeyMap.empty :=
  fun _ v h => absurd (KeyMap.get_empty.symm.trans h) (Option.some_ne_none v).symm

theorem Fills.nothing (h : graph.Filled reached walked store) :
    graph.Fills reached walked store store [] :=
  ⟨h, KeyMap.Grows.refl store, fun _ h => absurd h List.not_mem_nil, fun _ h => absurd h List.not_mem_nil⟩

theorem foldlM_fills {α : Type} {step : KeyMap κ β → α → Option (KeyMap κ β)}
    {ok : KeyMap κ β → α → Bool} {asks : α → List (ν × κ)} (items : List α)
    (hstep : ∀ item ∈ items, ∀ {store store'}, graph.Filled reached walked store →
      ok store item = true → step store item = some store' →
      graph.Fills reached walked store store' (asks item)) :
    ∀ {store store' : KeyMap κ β}, graph.Filled reached walked store →
      throughout step ok items store = true → items.foldlM step store = some store' →
      graph.Fills reached walked store store' (items.flatMap asks) := by
  induction items with
  | nil =>
      intro store store' hfilled _ hfold
      obtain rfl := Option.some.inj hfold
      exact .nothing hfilled
  | cons first rest ih =>
      intro store store' hfilled hok hfold
      rw [List.foldlM_cons] at hfold
      obtain ⟨middle, hfirst, hrest⟩ := Option.bind_eq_some_iff.mp hfold
      rw [throughout, hfirst, Option.all_some, Bool.and_eq_true] at hok
      have hone := hstep first List.mem_cons_self hfilled hok.1 hfirst
      have hmore := ih (fun item hitem => hstep item (List.mem_cons_of_mem _ hitem)) hone.filled hok.2
        hrest
      refine ⟨hmore.filled, hone.grows.trans hmore.grows, fun ask hask => ?_, fun ask hask => ?_⟩
      · rcases List.mem_append.mp hask with hask | hask
        · exact hmore.grows _ (hone.registered ask hask)
        · exact hmore.registered ask hask
      · rcases List.mem_append.mp hask with hask | hask
        · exact found_grow hmore.grows (fun _ h => h) (hone.found ask hask)
        · exact hmore.found ask hask

/-- The value of a node is written when the nodes it holds are registered. -/
theorem Fills.set_value (h : graph.Fills reached (node :: walked) store store' (graph.wants node))
    (hreached : reached node) :
    graph.Filled reached walked (store'.set (graph.key node) (graph.value node)) := by
  have hset := KeyMap.grows_set store' (graph.key node) (graph.value node)
  have hchildren : ∀ child ∈ graph.children node, (store'.get (graph.key child)).isSome = true := by
    intro child hchild
    obtain ⟨ask, hask, rfl⟩ := List.mem_map.mp hchild
    exact h.registered ask hask
  have hclose : ∀ {k}, graph.found (node :: walked) store' k = true →
      graph.found walked (store'.set (graph.key node) (graph.value node)) k = true := fun hfound =>
    found_grow hset (fun _ h => h) (found_close hchildren hfound)
  intro k v hget
  by_cases heq : k = graph.key node
  · subst heq
    rw [KeyMap.get_set_self] at hget
    exact Or.inr ⟨node, hreached, rfl, Option.some.inj hget, fun ask hask => hclose (h.found ask hask)⟩
  · rw [KeyMap.get_set_of_ne heq] at hget
    rcases h.filled k v hget with ⟨holder, hholder, hkey⟩ | ⟨other, hother, hkey, hvalue, hwants⟩
    · rcases List.mem_cons.mp hholder with rfl | hholder
      · exact absurd hkey.symm heq
      · exact Or.inl ⟨holder, hholder, hkey⟩
    · exact Or.inr ⟨other, hother, hkey, hvalue, fun ask hask => hclose (hwants ask hask)⟩

theorem Filled.walk (h : graph.Filled reached walked store) :
    graph.Filled reached (node :: walked) store := fun k v hget =>
  (h k v hget).imp (fun ⟨holder, hholder, hkey⟩ => ⟨holder, List.mem_cons_of_mem _ hholder, hkey⟩)
    fun ⟨other, hother, hkey, hvalue, hwants⟩ => ⟨other, hother, hkey, hvalue, fun ask hask =>
      found_grow (KeyMap.Grows.refl store) (fun _ => List.mem_cons_of_mem _) (hwants ask hask)⟩

theorem Filled.place (h : graph.Filled reached (node :: walked) store) (v : β) :
    graph.Filled reached (node :: walked) (store.set (graph.key node) v) := by
  intro k w hget
  by_cases heq : k = graph.key node
  · exact Or.inl ⟨node, List.mem_cons_self, heq.symm⟩
  · rw [KeyMap.get_set_of_ne heq] at hget
    exact (h k w hget).imp_right fun ⟨other, hother, hkey, hvalue, hwants⟩ =>
      ⟨other, hother, hkey, hvalue, fun ask hask =>
        found_grow (KeyMap.grows_set store _ v) (fun _ h => h) (hwants ask hask)⟩

theorem foldlM_register_fills (hclosed : graph.Closed reached)
    (hregister : ∀ {walked store store'} {ask : ν × κ}, reached ask.1 → graph.Below ask →
      graph.Filled reached walked store → graph.finds fuel walked store ask = true →
      graph.register fuel store ask.1 = some store' → graph.Fills reached walked store store' [ask])
    (hreached : reached node) (hfilled : graph.Filled reached walked store)
    (hfinds : throughout (fun store ask => graph.register fuel store ask.1) (graph.finds fuel walked)
      (graph.wants node) store = true)
    (h : (graph.children node).foldlM (graph.register fuel) store = some store') :
    graph.Fills reached walked store store' (graph.wants node) := by
  rw [foldlM_children] at h
  have hfills := foldlM_fills (graph.wants node) (fun ask hask {_ _} hbefore hok hstep =>
    hregister (hclosed.step hreached ask hask) (hclosed.below hreached ask hask) hbefore hok hstep)
    hfilled hfinds h
  rwa [List.flatMap_singleton'] at hfills

theorem register_fills (hclosed : graph.Closed reached) (fuel : Nat) :
    ∀ {walked : List ν} {store store' : KeyMap κ β} {ask : ν × κ}, reached ask.1 → graph.Below ask →
      graph.Filled reached walked store → graph.finds fuel walked store ask = true →
      graph.register fuel store ask.1 = some store' →
      graph.Fills reached walked store store' [ask] := by
  induction fuel with
  | zero =>
      intro walked store store' ask _ _ _ _ h
      cases h
  | succ fuel ih =>
      intro walked store store' ask hreached hbelow hfilled hfinds h
      obtain ⟨node, k⟩ := ask
      rw [register] at h
      rw [finds] at hfinds
      split at h
      · rename_i htaken
        obtain rfl := Option.some.inj h
        rw [if_pos htaken] at hfinds
        refine ⟨hfilled, KeyMap.Grows.refl store, List.forall_mem_singleton.mpr htaken, ?_⟩
        exact List.forall_mem_singleton.mpr hfinds
      · rename_i hfree
        obtain ⟨after, hafter, rfl⟩ := Option.map_eq_some_iff.mp h
        rw [if_neg hfree] at hfinds
        -- the key is pending while the nodes of `node` are registered
        have hheld := foldlM_register_fills hclosed ih hreached
          (hfilled.walk.place graph.placeholder) hfinds hafter
        have hset := KeyMap.grows_set after (graph.key node) (graph.value node)
        refine ⟨hheld.set_value hreached, (KeyMap.grows_set store _ _).trans (hheld.grows.trans hset),
          List.forall_mem_singleton.mpr ?_, List.forall_mem_singleton.mpr (found_iff.mpr (Or.inl ?_))⟩
        · exact KeyMap.isSome_get_set.mpr (Or.inl rfl)
        · rcases hbelow with hkey | ⟨child, hchild, hkey⟩
          · exact KeyMap.isSome_get_set.mpr (Or.inl hkey)
          · obtain ⟨ask, hask, rfl⟩ := List.mem_map.mp hchild
            rw [← hkey]
            exact hset _ (hheld.registered ask hask)

theorem write_fills (hclosed : graph.Closed reached) (hreached : reached node)
    (hfilled : graph.Filled reached [] store) (hfinds : graph.findsBelow fuel store node = true)
    (h : graph.write fuel store node = some store') :
    graph.Fills reached [] store store' [(node, graph.key node)] := by
  obtain ⟨after, hafter, rfl⟩ := Option.map_eq_some_iff.mp h
  have hheld := foldlM_register_fills hclosed (register_fills hclosed fuel) hreached hfilled.walk hfinds
    hafter
  refine ⟨hheld.set_value hreached, hheld.grows.trans (KeyMap.grows_set after _ _),
    List.forall_mem_singleton.mpr ?_, List.forall_mem_singleton.mpr (found_iff.mpr (Or.inl ?_))⟩
  · exact KeyMap.isSome_get_set.mpr (Or.inl rfl)
  · exact KeyMap.isSome_get_set.mpr (Or.inl rfl)

variable {nodes : List ν}

def free (graph : Registry ν κ β) (nodes : List ν) (store : KeyMap κ β) : Nat :=
  nodes.countP fun node => (store.get (graph.key node)).isNone

theorem free_le_of_grows (hgrows : store.Grows store') :
    graph.free nodes store' ≤ graph.free nodes store := by
  refine List.countP_mono_left fun node _ hfree => ?_
  rw [Option.isNone_iff_eq_none] at hfree ⊢
  by_contra htaken
  have hsome := hgrows _ (Option.isSome_iff_ne_none.mpr htaken)
  rw [hfree] at hsome
  cases hsome

theorem free_set_lt {v : β} (hmem : node ∈ nodes)
    (hfree : (store.get (graph.key node)).isSome = false) :
    graph.free nodes (store.set (graph.key node) v) < graph.free nodes store := by
  obtain ⟨before, after, rfl⟩ := List.append_of_mem hmem
  have hbefore : graph.free before (store.set (graph.key node) v) ≤ graph.free before store :=
    free_le_of_grows (KeyMap.grows_set store (graph.key node) v)
  have hafter : graph.free after (store.set (graph.key node) v) ≤ graph.free after store :=
    free_le_of_grows (KeyMap.grows_set store (graph.key node) v)
  have hnone : (store.get (graph.key node)).isNone = true := by
    rw [← Option.not_isSome, hfree]
    rfl
  simp only [free, List.countP_append, List.countP_cons, hnone, KeyMap.get_set_self,
    Option.isNone_some, if_true, Bool.false_eq_true, if_false] at hbefore hafter ⊢
  omega

theorem foldlM_isSome {bound : Nat}
    (hstep : ∀ store, ∀ node ∈ nodes, graph.free nodes store < bound →
      (graph.register fuel store node).isSome = true)
    (hheld : ∀ child ∈ graph.children node, child ∈ nodes) (hbound : graph.free nodes store < bound) :
    ((graph.children node).foldlM (graph.register fuel) store).isSome = true := by
  have hnext : ∀ child ∈ graph.children node, ∀ store', graph.free nodes store' < bound →
      ∃ next, graph.register fuel store' child = some next ∧ graph.free nodes next < bound := by
    intro child hchild store' hfree
    obtain ⟨next, hnext⟩ := Option.isSome_iff_exists.mp (hstep store' child (hheld child hchild) hfree)
    exact ⟨next, hnext, Nat.lt_of_le_of_lt (free_le_of_grows (register_extends fuel hnext).grows) hfree⟩
  obtain ⟨store', hfold, -⟩ := foldlM_total (graph.children node) hnext hbound
  exact Option.isSome_iff_exists.mpr ⟨store', hfold⟩

/-- **Registering ends**: as many nested calls as keys are free are enough. -/
theorem register_isSome (hclosed : ∀ node ∈ nodes, ∀ child ∈ graph.children node, child ∈ nodes)
    (fuel : Nat) : ∀ store, ∀ node ∈ nodes, graph.free nodes store < fuel →
      (graph.register fuel store node).isSome = true := by
  induction fuel with
  | zero => exact fun _ _ _ h => absurd h (Nat.not_lt_zero _)
  | succ fuel ih =>
      intro store node hmem hfuel
      rw [register]
      split
      · rfl
      · rename_i htaken
        rw [Option.isSome_map]
        refine foldlM_isSome ih (hclosed node hmem) ?_
        have hlt := free_set_lt (v := graph.placeholder) hmem (Bool.eq_false_iff.mpr htaken)
        omega

theorem write_isSome (hclosed : ∀ node ∈ nodes, ∀ child ∈ graph.children node, child ∈ nodes)
    (hheld : ∀ child ∈ graph.children node, child ∈ nodes) (hfuel : graph.free nodes store < fuel) :
    (graph.write fuel store node).isSome = true := by
  rw [write, Option.isSome_map]
  exact foldlM_isSome (register_isSome hclosed fuel) hheld hfuel

end Registry

end StructuredProxy.Lib

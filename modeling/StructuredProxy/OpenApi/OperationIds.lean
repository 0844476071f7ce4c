import StructuredProxy.OpenApi.Walk
import Mathlib.Data.List.Perm.Subperm

/-!
# Operation ids

The candidates for an id are pairwise different, so one of the first `n + 1` is free when `n` ids are
taken: the search ends, and with an id no operation has.
-/

namespace StructuredProxy.OpenApi

open Lib

variable {ids : List Text} {base : Text}

theorem candidateId_injective (base : Text) {m n : Nat}
    (h : candidateId base m = candidateId base n) : m = n := by
  unfold candidateId at h
  have hlonger : ∀ k, base ≠ base ++ str "_" ++ decimal k := by
    intro k heq
    have hlength := congrArg List.length heq
    have hone : (str "_").length = 1 := rfl
    rw [List.length_append, List.length_append, hone] at hlength
    omega
  by_cases hm1 : m = 1
  · by_cases hn1 : n = 1
    · exact hm1.trans hn1.symm
    · rw [if_pos hm1, if_neg hn1] at h
      exact absurd h (hlonger n)
  · by_cases hn1 : n = 1
    · rw [if_neg hm1, if_pos hn1] at h
      exact absurd h.symm (hlonger m)
    · rw [if_neg hm1, if_neg hn1] at h
      exact decimal_injective (List.append_cancel_left h)

theorem uniqueIdFrom_eq_none (tries : Nat) : ∀ {n : Nat}, uniqueIdFrom ids base tries n = none →
    ∀ i < tries, candidateId base (n + i) ∈ ids := by
  induction tries with
  | zero => exact fun _ i hi => absurd hi (Nat.not_lt_zero i)
  | succ tries ih =>
      intro n h i hi
      rw [uniqueIdFrom] at h
      split at h
      · rename_i htaken
        cases i with
        | zero => exact htaken
        | succ i =>
            have hrest := ih h i (Nat.lt_of_succ_lt_succ hi)
            rwa [Nat.add_right_comm, Nat.add_assoc] at hrest
      · cases h

theorem uniqueIdFrom_notMem (tries : Nat) : ∀ {n : Nat} {id : Text},
    uniqueIdFrom ids base tries n = some id → id ∉ ids := by
  induction tries with
  | zero =>
      intro n id h
      cases h
  | succ tries ih =>
      intro n id h
      rw [uniqueIdFrom] at h
      split at h
      · exact ih h
      · rename_i hfree
        rwa [← Option.some.inj h]

/-- **The search for an id ends.** -/
theorem uniqueId_isSome (ids : List Text) (base : Text) : (uniqueId ids base).isSome = true := by
  by_contra hnone
  rw [Bool.not_eq_true, Option.isSome_eq_false_iff, Option.isNone_iff_eq_none] at hnone
  have htaken := uniqueIdFrom_eq_none (ids.length + 1) hnone
  have hnodup : ((List.range (ids.length + 1)).map fun i => candidateId base (1 + i)).Nodup := by
    refine List.Nodup.map_on (fun i _ j _ heq => ?_) List.nodup_range
    have hsame := candidateId_injective base heq
    omega
  have hsubset : ((List.range (ids.length + 1)).map fun i => candidateId base (1 + i)) ⊆ ids := by
    intro id hid
    obtain ⟨i, hi, rfl⟩ := List.mem_map.mp hid
    exact htaken i (List.mem_range.mp hi)
  have hlength := (List.subperm_of_subset hnodup hsubset).length_le
  rw [List.length_map, List.length_range] at hlength
  omega

/-! ### The ids of a document -/

def DistinctIds (draft : Draft) : Prop :=
  ((operations draft.paths).map Operation.operationId).Nodup ∧
    ∀ operation ∈ operations draft.paths, ∃ id ∈ draft.operationIds, operation.operationId = some id

theorem operations_addPathOperation (paths : Paths) (path : Text) (httpMethod : HttpOperation)
    (operation : Operation) : ∃ others,
      operations (addPathOperation paths path httpMethod operation) = operation :: others ∧
        others.Subperm (operations paths) := by
  refine ⟨_, rfl, ?_⟩
  cases hitem : paths.get path with
  | none =>
      rw [KeyMap.erase_of_none hitem]
      exact List.Subperm.refl _
  | some item =>
      obtain ⟨before, after, hentries, herase⟩ := KeyMap.exists_split_of_get hitem
      have hkept : ((item.erase httpMethod).entries.map Prod.snd).Sublist (item.entries.map Prod.snd) :=
        List.filter_sublist.map _
      have hothers : operations paths =
          before.flatMap (fun entry => entry.2.entries.map Prod.snd) ++
            (item.entries.map Prod.snd ++ after.flatMap fun entry => entry.2.entries.map Prod.snd) := by
        rw [operations, hentries, List.flatMap_append, List.flatMap_cons]
      have hleft : ((paths.erase path).entries.flatMap fun entry => entry.2.entries.map Prod.snd) =
          before.flatMap (fun entry => entry.2.entries.map Prod.snd) ++
            after.flatMap fun entry => entry.2.entries.map Prod.snd := by
        rw [herase, List.flatMap_append]
      change ((item.erase httpMethod).entries.map Prod.snd ++
        (paths.erase path).entries.flatMap fun entry => entry.2.entries.map Prod.snd).Subperm _
      rw [hothers, hleft]
      exact (List.Sublist.subperm (List.Sublist.append_right hkept _)).trans
        (List.Perm.subperm (List.perm_append_comm_assoc _ _ _))

section Walk

variable {router : Matchit} {uri : UriParser} {aliases : List AliasConfig} {selection : RpcSelection}
  {types : Types} {fuel : Nat} {mounted : List Text} {draft draft' : Draft}

theorem addTarget_distinctIds {operation : Operation} {httpMethod : HttpOperation} {path : Text}
    (hdraft : DistinctIds draft)
    (h : addTarget router mounted operation httpMethod base draft path = some draft') :
    DistinctIds draft' := by
  unfold addTarget at h
  dsimp only at h
  split at h
  · obtain rfl := Option.some.inj h
    exact hdraft
  · obtain ⟨id, hid, h⟩ := Option.bind_eq_some_iff.mp h
    obtain rfl := Option.some.inj h
    have hfresh := uniqueIdFrom_notMem _ hid
    obtain ⟨others, hothers, hsubperm⟩ := operations_addPathOperation draft.paths path httpMethod
      { (if httpMethod = .head then stripResponseContent operation else operation) with
        operationId := some id }
    constructor
    · rw [hothers, List.map_cons]
      refine List.nodup_cons.mpr ⟨fun hmem => ?_, ?_⟩
      · obtain ⟨other, hother, heq⟩ := List.mem_map.mp hmem
        obtain ⟨taken, htaken, hother⟩ := hdraft.2 other (hsubperm.subset hother)
        rw [hother] at heq
        exact hfresh (Option.some.inj heq ▸ htaken)
      · obtain ⟨kept, hperm, hsublist⟩ := hsubperm
        exact (hperm.map _).nodup_iff.mp ((hsublist.map _).nodup hdraft.1)
    · intro other hother
      rw [hothers] at hother
      rcases List.mem_cons.mp hother with rfl | hother
      · exact ⟨id, List.mem_cons_self, rfl⟩
      · obtain ⟨taken, htaken, heq⟩ := hdraft.2 other (hsubperm.subset hother)
        exact ⟨taken, List.mem_cons_of_mem _ htaken, heq⟩

theorem addBinding_distinctIds {service : ApiService} {method : ApiMethod} {binding : HttpBinding}
    (hlisted : operationMethods binding.method ≠ []) (hdraft : DistinctIds draft)
    (h : addBinding router aliases types fuel mounted service method draft binding = some draft') :
    DistinctIds draft' := by
  obtain ⟨operation, schemas, -, h⟩ := of_addBinding hlisted h
  have hstart : DistinctIds { draft with schemas } := hdraft
  exact foldlM_keeps _ (fun _ _ _ _ hbefore hadd => foldlM_keeps _
    (fun _ _ _ _ hbefore hadd => addTarget_distinctIds hbefore hadd) hbefore hadd) hstart h

/-- **No two operations of a document share an id.** -/
theorem generate_distinctIds {descriptors : Descriptors} {config : OpenApiConfig} {document : Document}
    (h : generate router uri aliases selection fuel descriptors config = some document) :
    ((operations document.paths).map Operation.operationId).Nodup := by
  obtain ⟨draft, hdraft, h⟩ := Option.bind_eq_some_iff.mp h
  obtain rfl := Option.some.inj h
  have hempty : DistinctIds {} :=
    ⟨List.nodup_nil, fun operation hoperation => absurd hoperation List.not_mem_nil⟩
  have hall : DistinctIds draft := services_keep (fun _ _ hdraft => hdraft)
    (fun _ _ _ hbinds _ _ hbefore hadd => addBinding_distinctIds hbinds.listed hbefore hadd) hempty
    hdraft
  exact hall.1

end Walk

end StructuredProxy.OpenApi

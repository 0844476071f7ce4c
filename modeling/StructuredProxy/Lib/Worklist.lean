import Mathlib.Algebra.Order.BigOperators.Group.List
import Mathlib.Algebra.Order.Ring.Nat

/-!
# Searching a graph with a worklist

`explore` pops a node, skips it when its key was seen, stops when the node is a find (`next` is none)
and pushes its neighbours otherwise. On a finite set of nodes that `next` does not leave the search
ends. When it ends without a find, the seen keys are closed under `next`, so that nothing a root leads
to is a find.
-/

namespace StructuredProxy.Lib

variable {α κ : Type*} [DecidableEq κ] (key : α → κ) (next : α → Option (List α))

/-- The search through at most `fuel` rounds, none when they were not enough. -/
def explore : Nat → List κ → List α → Option Bool
  | 0, _, _ => none
  | _ + 1, _, [] => some false
  | fuel + 1, seen, a :: pending =>
      if key a ∈ seen then explore fuel seen pending
      else
        match next a with
        | none => some true
        | some more => explore fuel (key a :: seen) (more ++ pending)

structure Closed (nodes : List α) : Prop where
  next_mem : ∀ a ∈ nodes, ∀ more, next a = some more → ∀ b ∈ more, b ∈ nodes
  key_inj : ∀ a ∈ nodes, ∀ b ∈ nodes, key a = key b → a = b

variable {key next} {nodes : List α}

def branching (key : α → κ) (next : α → Option (List α)) (seen : List κ) (a : α) : Nat :=
  if key a ∈ seen then 0 else ((next a).getD []).length

/-- The rounds left at most: one for each pending node, and one for each neighbour of a node not seen. -/
def roundsLeft (key : α → κ) (next : α → Option (List α)) (nodes : List α) (seen : List κ)
    (pending : List α) : Nat :=
  pending.length + (nodes.map (branching key next seen)).sum

theorem branching_cons_le (seen : List κ) (k : κ) (a : α) :
    branching key next (k :: seen) a ≤ branching key next seen a := by
  unfold branching
  by_cases hseen : key a ∈ seen
  · rw [if_pos (List.mem_cons_of_mem k hseen), if_pos hseen]
  · rw [if_neg hseen]
    split
    · exact Nat.zero_le _
    · exact Nat.le_refl _

/-- A node that is expanded is paid for by what it no longer adds. -/
theorem roundsLeft_expand {seen : List κ} {a : α} {more pending : List α} (ha : a ∈ nodes)
    (hnew : key a ∉ seen) (hnext : next a = some more) :
    roundsLeft key next nodes (key a :: seen) (more ++ pending) <
      roundsLeft key next nodes seen (a :: pending) := by
  obtain ⟨before, after, rfl⟩ := List.append_of_mem ha
  have hle : ∀ l : List α, (l.map (branching key next (key a :: seen))).sum ≤
      (l.map (branching key next seen)).sum :=
    fun l => List.sum_le_sum fun b _ => branching_cons_le seen (key a) b
  have hbefore := hle before
  have hafter := hle after
  have hold : branching key next seen a = more.length := by
    rw [branching, if_neg hnew, hnext, Option.getD_some]
  have hdone : branching key next (key a :: seen) a = 0 := by
    rw [branching, if_pos List.mem_cons_self]
  simp only [roundsLeft, List.map_append, List.map_cons, List.sum_append, List.sum_cons,
    List.length_append, List.length_cons, hold, hdone]
  omega

theorem explore_ends (hclosed : Closed key next nodes) {fuel : Nat} :
    ∀ {seen : List κ} {pending : List α}, (∀ a ∈ pending, a ∈ nodes) →
      roundsLeft key next nodes seen pending < fuel →
      ∃ answer, ∀ more, explore key next (fuel + more) seen pending = some answer := by
  induction fuel with
  | zero => intro seen pending _ hfuel; exact absurd hfuel (Nat.not_lt_zero _)
  | succ fuel ih =>
      intro seen pending hpending hfuel
      cases pending with
      | nil =>
          refine ⟨false, fun more => ?_⟩
          rw [Nat.succ_add, explore]
      | cons a pending =>
          have ha := hpending a List.mem_cons_self
          have hrest : ∀ b ∈ pending, b ∈ nodes := fun b hb => hpending b (List.mem_cons_of_mem a hb)
          by_cases hseen : key a ∈ seen
          · have hless : roundsLeft key next nodes seen pending < fuel := by
              rw [roundsLeft, List.length_cons] at hfuel
              rw [roundsLeft]
              omega
            obtain ⟨answer, hanswer⟩ := ih hrest hless
            refine ⟨answer, fun more => ?_⟩
            rw [Nat.succ_add, explore, if_pos hseen, hanswer]
          · cases hnext : next a with
            | none =>
                refine ⟨true, fun more => ?_⟩
                rw [Nat.succ_add, explore, if_neg hseen, hnext]
            | some found =>
                have hmem : ∀ b ∈ found ++ pending, b ∈ nodes := by
                  intro b hb
                  obtain hb | hb := List.mem_append.mp hb
                  · exact hclosed.next_mem a ha found hnext b hb
                  · exact hrest b hb
                have hless := @roundsLeft_expand _ _ _ key next nodes seen a found pending ha hseen hnext
                have hless' : roundsLeft key next nodes (key a :: seen) (found ++ pending) < fuel := by
                  omega
                obtain ⟨answer, hanswer⟩ := ih hmem hless'
                refine ⟨answer, fun more => ?_⟩
                rw [Nat.succ_add, explore, if_neg hseen, hnext]
                exact hanswer more

/-! ### What it has seen -/

/-- Every node seen is no find, and its neighbours are seen or pending. -/
def Expanded (key : α → κ) (next : α → Option (List α)) (nodes : List α) (seen : List κ)
    (pending : List α) : Prop :=
  ∀ a ∈ nodes, key a ∈ seen → ∃ more, next a = some more ∧ ∀ b ∈ more, key b ∈ seen ∨ b ∈ pending

/-- A search without a find ends with seen keys that `next` does not leave, the pending ones and all
seen before among them. -/
theorem explore_eq_false (hclosed : Closed key next nodes) {fuel : Nat} :
    ∀ {seen : List κ} {pending : List α}, (∀ a ∈ pending, a ∈ nodes) →
      Expanded key next nodes seen pending → explore key next fuel seen pending = some false →
      ∃ final : List κ, (∀ k ∈ seen, k ∈ final) ∧ (∀ a ∈ pending, key a ∈ final) ∧
        Expanded key next nodes final [] := by
  induction fuel with
  | zero => intro seen pending _ _ h; exact absurd h (by simp [explore])
  | succ fuel ih =>
      intro seen pending hpending hexpanded h
      cases pending with
      | nil => exact ⟨seen, fun k hk => hk, fun a ha => absurd ha (by simp), hexpanded⟩
      | cons a pending =>
          have ha := hpending a List.mem_cons_self
          have hrest : ∀ b ∈ pending, b ∈ nodes := fun b hb => hpending b (List.mem_cons_of_mem a hb)
          rw [explore] at h
          by_cases hseen : key a ∈ seen
          · rw [if_pos hseen] at h
            have hstill : Expanded key next nodes seen pending := by
              intro c hc hkey
              obtain ⟨more, hmore, hall⟩ := hexpanded c hc hkey
              refine ⟨more, hmore, fun b hb => ?_⟩
              obtain hb | hb := hall b hb
              · exact Or.inl hb
              · obtain rfl | hb := List.mem_cons.mp hb
                · exact Or.inl hseen
                · exact Or.inr hb
            obtain ⟨final, hsub, hall, hfinal⟩ := ih hrest hstill h
            refine ⟨final, hsub, fun b hb => ?_, hfinal⟩
            obtain rfl | hb := List.mem_cons.mp hb
            · exact hsub _ hseen
            · exact hall b hb
          · rw [if_neg hseen] at h
            cases hnext : next a with
            | none =>
                rw [hnext] at h
                exact absurd h (by simp)
            | some found =>
                rw [hnext] at h
                have hmem : ∀ b ∈ found ++ pending, b ∈ nodes := by
                  intro b hb
                  obtain hb | hb := List.mem_append.mp hb
                  · exact hclosed.next_mem a ha found hnext b hb
                  · exact hrest b hb
                have hstill : Expanded key next nodes (key a :: seen) (found ++ pending) := by
                  intro c hc hkey
                  obtain hkey | hkey := List.mem_cons.mp hkey
                  · rw [hclosed.key_inj c hc a ha hkey]
                    exact ⟨found, hnext, fun b hb => Or.inr (List.mem_append_left _ hb)⟩
                  · obtain ⟨more, hmore, hall⟩ := hexpanded c hc hkey
                    refine ⟨more, hmore, fun b hb => ?_⟩
                    obtain hb | hb := hall b hb
                    · exact Or.inl (List.mem_cons_of_mem _ hb)
                    · obtain rfl | hb := List.mem_cons.mp hb
                      · exact Or.inl List.mem_cons_self
                      · exact Or.inr (List.mem_append_right _ hb)
                obtain ⟨final, hsub, hall, hfinal⟩ := ih hmem hstill h
                refine ⟨final, fun k hk => hsub k (List.mem_cons_of_mem _ hk), fun b hb => ?_, hfinal⟩
                obtain rfl | hb := List.mem_cons.mp hb
                · exact hsub _ List.mem_cons_self
                · exact hall b (List.mem_append_right _ hb)

end StructuredProxy.Lib

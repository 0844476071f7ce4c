import StructuredProxy.Transcode.Text
import Mathlib.Data.List.Perm.Basic
import Mathlib.Order.Basic

/-!
# Route patterns and their ranking

What the router paths are for, apart from how any index stores them: a path with its capture names
erased accepts some requests, and the paths that accept one request are ranked, a literal before a
variable before a catch-all at the first segment where two differ. A catch-all can only come last by
construction.
-/

namespace StructuredProxy

inductive Pattern where
  | done
  | catchAll
  | lit (text : Text) (tail : Pattern)
  | var (tail : Pattern)
deriving DecidableEq

namespace Pattern

/-- Whether the segments of a request match: a literal the equal segment, a variable any one segment
(an empty last one only with `emptyLast`), a catch-all any non-empty rest. -/
def accepts (emptyLast : Bool) : Pattern → List Text → Bool
  | done, segments => segments.isEmpty
  | catchAll, segments => !segments.isEmpty && segments != [[]]
  | lit text tail, segment :: rest => text == segment && tail.accepts emptyLast rest
  | lit _ _, [] => false
  | var tail, segment :: rest =>
      (!segment.isEmpty || !rest.isEmpty || emptyLast) && tail.accepts emptyLast rest
  | var _, [] => false

def acceptsPath (emptyLast : Bool) (pattern : Pattern) (path : Text) : Bool :=
  match stripPrefix slash path with
  | some rest => pattern.accepts emptyLast (rest.splitOn slash)
  | none => false

/-- The first pattern has the smaller kind at the first segment where the two differ: literal,
variable, catch-all. -/
def Before : Pattern → Pattern → Prop
  | lit text tail, lit text' tail' => text = text' ∧ tail.Before tail'
  | lit _ _, var _ => True
  | lit _ _, catchAll => True
  | var tail, var tail' => tail.Before tail'
  | var _, catchAll => True
  | _, _ => False

instance decidableBefore : ∀ p q : Pattern, Decidable (p.Before q)
  | lit text tail, lit text' tail' =>
      have := decidableBefore tail tail'
      inferInstanceAs (Decidable (text = text' ∧ tail.Before tail'))
  | var tail, var tail' => decidableBefore tail tail'
  | lit _ _, var _ => isTrue trivial
  | lit _ _, catchAll => isTrue trivial
  | var _, catchAll => isTrue trivial
  | lit _ _, done => isFalse id
  | var _, lit _ _ => isFalse id
  | var _, done => isFalse id
  | done, q => isFalse (by cases q <;> exact id)
  | catchAll, q => isFalse (by cases q <;> exact id)

theorem before_irrefl (p : Pattern) : ¬ p.Before p := by
  induction p with
  | done => exact id
  | catchAll => exact id
  | lit text tail ih => exact fun h => ih h.2
  | var tail ih => exact fun h => ih h

theorem before_asymm {p q : Pattern} (h : p.Before q) : ¬ q.Before p := by
  induction p generalizing q with
  | done => exact absurd h id
  | catchAll => exact absurd h (by cases q <;> exact id)
  | lit text tail ih =>
      cases q with
      | lit text' tail' => exact fun h' => ih h.2 h'.2
      | _ => exact id
  | var tail ih =>
      cases q with
      | var tail' => exact fun h' => ih h h'
      | catchAll => exact id
      | _ => exact absurd h id

end Pattern

variable {ι : Type*}

/-- `listing` is the ranking of the entries a request matches: those entries, each once, in the order
of their patterns. -/
structure IsRanking (emptyLast : Bool) (path : Text) (entries listing : List (Pattern × ι)) : Prop where
  perm : listing.Perm (entries.filter fun entry => entry.1.acceptsPath emptyLast path)
  ordered : listing.Pairwise fun a b => a.1.Before b.1

instance [DecidableEq ι] (emptyLast : Bool) (path : Text) (entries listing : List (Pattern × ι)) :
    Decidable (IsRanking emptyLast path entries listing) :=
  decidable_of_iff
    (listing.Perm (entries.filter fun entry => entry.1.acceptsPath emptyLast path) ∧
      listing.Pairwise fun a b => a.1.Before b.1)
    ⟨fun h => ⟨h.1, h.2⟩, fun h => ⟨h.perm, h.ordered⟩⟩

namespace IsRanking

variable {emptyLast : Bool} {path : Text} {entries listing listing' : List (Pattern × ι)}

theorem mem_iff (h : IsRanking emptyLast path entries listing) {entry : Pattern × ι} :
    entry ∈ listing ↔ entry ∈ entries ∧ entry.1.acceptsPath emptyLast path = true := by
  rw [h.perm.mem_iff, List.mem_filter]

theorem unique (h : IsRanking emptyLast path entries listing)
    (h' : IsRanking emptyLast path entries listing') : listing = listing' := by
  refine List.Perm.eq_of_pairwise ?_ h.ordered h'.ordered (h.perm.trans h'.perm.symm)
  intro a b _ _ hab hba
  exact absurd hba (Pattern.before_asymm hab)

theorem of_perm {entries' : List (Pattern × ι)} (h : IsRanking emptyLast path entries listing)
    (hperm : entries.Perm entries') : IsRanking emptyLast path entries' listing where
  perm := h.perm.trans (hperm.filter _)
  ordered := h.ordered

/-- Leaving entries out leaves them out of the ranking and nothing else. -/
theorem filter (h : IsRanking emptyLast path entries listing) (keep : Pattern × ι → Bool) :
    IsRanking emptyLast path (entries.filter keep) (listing.filter keep) where
  perm := by
    rw [List.filter_filter]
    refine (h.perm.filter keep).trans ?_
    rw [List.filter_filter]
    exact List.Perm.of_eq (List.filter_congr fun entry _ => Bool.and_comm _ _)
  ordered := h.ordered.filter keep

theorem map {κ : Type*} (h : IsRanking emptyLast path entries listing) (f : ι → κ) :
    IsRanking emptyLast path (entries.map fun entry => (entry.1, f entry.2))
      (listing.map fun entry => (entry.1, f entry.2)) where
  perm := by
    rw [List.filter_map]
    exact h.perm.map _
  ordered := h.ordered.map _ fun _ _ hbefore => hbefore

end IsRanking

end StructuredProxy

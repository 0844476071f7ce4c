import StructuredProxy.Guard.Rejection
import StructuredProxy.Metadata.Forward
import StructuredProxy.Shield.Gcra
import StructuredProxy.Transcode.Number
import Mathlib.Data.Prod.Lex

/-!
# The budget a response reports

Each phase of the rate limits reports its budget on the response of a request it admitted, on the way
out, so an outer phase finds what an inner one wrote. It leaves the inner headers where they bind at
least as hard: fewer requests remain, or as many and the reset is at least as far. Whatever the phases,
the response ends up with the budget that binds hardest.
-/

namespace StructuredProxy.Shield

open Lib Guard

def ratelimitLimit : Text := str "ratelimit-limit"
def ratelimitRemaining : Text := str "ratelimit-remaining"
def ratelimitReset : Text := str "ratelimit-reset"

structure Report where
  limit : Nat
  remaining : Nat
  verdict : Verdict
  limit_lt : limit < 2 ^ 64
  remaining_lt : remaining < 2 ^ 64

def attachRateHeaders (headers : Headers) (limit remaining : Nat) (verdict : Verdict) : Headers :=
  ((headers.insert ratelimitLimit (decimal limit)).insert ratelimitRemaining (decimal remaining)).insert
    ratelimitReset (decimal (secsCeil verdict.resetAfter))

def headerU64 (headers : Headers) (name : Text) : Option Nat :=
  ((headers.getAll name).head?.bind Metadata.toStr).bind parseU64

/-- An inner limiter's budget that binds at least as hard is kept. -/
def keepsInner (headers : Headers) (remaining : Nat) (verdict : Verdict) : Bool :=
  match headerU64 headers ratelimitRemaining with
  | some inner =>
      if inner < remaining then true
      else if inner = remaining then
        secsCeil verdict.resetAfter ≤ (headerU64 headers ratelimitReset).getD 0
      else false
  | none => false

/-- A wait the response announces is only ever made longer. -/
def widenRetryAfter (headers : Headers) (reset : Nat) : Headers :=
  match headerU64 headers retryAfter with
  | some current => if current < reset then headers.insert retryAfter (decimal reset) else headers
  | none => headers

def maybeTightenRateHeaders (headers : Headers) (limit remaining : Nat) (verdict : Verdict) : Headers :=
  if keepsInner headers remaining verdict then headers
  else widenRetryAfter (attachRateHeaders headers limit remaining verdict) (secsCeil verdict.resetAfter)

def Report.apply (report : Report) (response : Response) : Response :=
  { response with
    headers := maybeTightenRateHeaders response.headers report.limit report.remaining report.verdict }

def tooManyRequests (limit remaining : Nat) (verdict : Verdict) : Response :=
  let response := reject .resourceExhausted (str "rate limit exceeded")
  { response with
    headers := (attachRateHeaders response.headers limit remaining verdict).insert retryAfter
      (decimal (secsCeil verdict.retryAfter)) }

namespace Report

def reset (report : Report) : Nat := secsCeil report.verdict.resetAfter

theorem reset_lt (report : Report) : report.reset < 2 ^ 64 := by
  rw [reset, secsCeil]
  exact Nat.lt_of_le_of_lt (Nat.min_le_right _ _) (by omega)

/-- How hard a budget binds, the hardest first: by what remains of it, then by the longer reset. -/
def hardness (report : Report) : Nat ×ₗ Natᵒᵈ := toLex (report.remaining, .toDual report.reset)

theorem toLex_toDual_le_iff {a b r s : Nat} :
    (toLex (a, .toDual r) : Nat ×ₗ Natᵒᵈ) ≤ toLex (b, .toDual s) ↔ a < b ∨ a = b ∧ s ≤ r :=
  Prod.Lex.toLex_le_toLex

theorem hardness_le_iff {report other : Report} :
    report.hardness ≤ other.hardness ↔
      report.remaining < other.remaining ∨
        report.remaining = other.remaining ∧ other.reset ≤ report.reset := by
  rw [hardness, hardness, toLex_toDual_le_iff]

structure Shown (report : Report) (headers : Headers) : Prop where
  limit : headers.getAll ratelimitLimit = [decimal report.limit]
  remaining : headers.getAll ratelimitRemaining = [decimal report.remaining]
  reset : headers.getAll ratelimitReset = [decimal report.reset]

end Report

theorem toStr_decimal (n : Nat) : Metadata.toStr (decimal n) = some (decimal n) := by
  refine if_pos (List.all_eq_true.mpr fun byte hbyte => ?_)
  obtain ⟨hlow, hhigh⟩ := mem_decimal hbyte
  rw [UInt8.le_iff_toNat_le] at hlow hhigh
  simp only [Bool.or_eq_true, Bool.and_eq_true, decide_eq_true_eq, UInt8.le_iff_toNat_le,
    UInt8.lt_iff_toNat_lt]
  simp at hlow hhigh ⊢
  omega

theorem headerU64_decimal {headers : Headers} {name : Text} {n : Nat}
    (h : headers.getAll name = [decimal n]) (hn : n < 2 ^ 64) : headerU64 headers name = some n := by
  rw [headerU64, h, List.head?_cons, Option.bind_some, toStr_decimal, Option.bind_some,
    parseU64_decimal hn]

theorem shown_attachRateHeaders (report : Report) (headers : Headers) :
    report.Shown (attachRateHeaders headers report.limit report.remaining report.verdict) where
  limit := by
    rw [attachRateHeaders, HeaderMap.getAll_insert_of_ne (by decide),
      HeaderMap.getAll_insert_of_ne (by decide), HeaderMap.getAll_insert_self]
  remaining := by
    rw [attachRateHeaders, HeaderMap.getAll_insert_of_ne (by decide), HeaderMap.getAll_insert_self]
  reset := HeaderMap.getAll_insert_self

theorem getAll_attachRateHeaders_retryAfter (headers : Headers) (limit remaining : Nat)
    (verdict : Verdict) :
    (attachRateHeaders headers limit remaining verdict).getAll retryAfter =
      headers.getAll retryAfter := by
  rw [attachRateHeaders, HeaderMap.getAll_insert_of_ne (by decide),
    HeaderMap.getAll_insert_of_ne (by decide), HeaderMap.getAll_insert_of_ne (by decide)]

theorem Report.Shown.insert {report : Report} {headers : Headers} {name : Text} (h : report.Shown headers)
    (hname : name ∉ [ratelimitLimit, ratelimitRemaining, ratelimitReset]) (value : Text) :
    report.Shown (headers.insert name value) := by
  simp only [List.mem_cons, List.not_mem_nil, or_false, not_or, ← ne_eq] at hname
  exact ⟨(HeaderMap.getAll_insert_of_ne hname.1.symm).trans h.limit,
    (HeaderMap.getAll_insert_of_ne hname.2.1.symm).trans h.remaining,
    (HeaderMap.getAll_insert_of_ne hname.2.2.symm).trans h.reset⟩

theorem Report.Shown.widenRetryAfter {report : Report} {headers : Headers} (h : report.Shown headers)
    (reset : Nat) : report.Shown (widenRetryAfter headers reset) := by
  unfold Shield.widenRetryAfter
  split
  · split
    · exact h.insert (by decide) _
    · exact h
  · exact h

theorem headerU64_widenRetryAfter {headers : Headers} {wait reset : Nat}
    (h : headerU64 headers retryAfter = some wait) (hreset : reset < 2 ^ 64) :
    headerU64 (widenRetryAfter headers reset) retryAfter = some (max wait reset) := by
  unfold widenRetryAfter
  rw [h]
  dsimp only
  split
  · rename_i hlt
    rw [headerU64_decimal HeaderMap.getAll_insert_self hreset, Nat.max_eq_right hlt.le]
  · rename_i hle
    rw [h, Nat.max_eq_left (Nat.le_of_not_lt hle)]

theorem keepsInner_of_shown {inner report : Report} {headers : Headers} (h : inner.Shown headers) :
    keepsInner headers report.remaining report.verdict = true ↔ inner.hardness ≤ report.hardness := by
  have hreset : headerU64 headers ratelimitReset = some inner.reset :=
    headerU64_decimal h.reset inner.reset_lt
  have hown : secsCeil report.verdict.resetAfter = report.reset := rfl
  rw [keepsInner, headerU64_decimal h.remaining inner.remaining_lt, hreset, Report.hardness_le_iff, hown,
    Option.getD_some]
  generalize report.reset = reset, inner.reset = reset'
  dsimp only
  split
  · rename_i hlt
    simp [hlt]
  · rename_i hnot
    split
    · rename_i heq
      simp [heq]
    · rename_i hne
      simp [hnot, hne]

/-! ### Across the phases -/

def ShowsInner (inner : Option Report) (headers : Headers) : Prop :=
  match inner with
  | some report => report.Shown headers
  | none => headerU64 headers ratelimitRemaining = none

/-- The reports of the phases a response passes on its way out, the innermost first. -/
def applyAll (reports : List Report) (response : Response) : Response :=
  reports.foldl (fun response report => report.apply response) response

theorem apply_of_not_keepsInner {report : Report} {response : Response}
    (h : ¬ keepsInner response.headers report.remaining report.verdict = true) :
    report.Shown (report.apply response).headers ∧
      ∀ wait, headerU64 response.headers retryAfter = some wait →
        headerU64 (report.apply response).headers retryAfter = some (max wait report.reset) := by
  rw [Report.apply, maybeTightenRateHeaders, if_neg h]
  refine ⟨(shown_attachRateHeaders report response.headers).widenRetryAfter _, ?_⟩
  intro wait hwait
  refine headerU64_widenRetryAfter ?_ report.reset_lt
  rw [headerU64, getAll_attachRateHeaders_retryAfter]
  exact hwait

/-- One phase leaves the harder of two budgets, and a wait that covers its reset where it wrote it. -/
theorem apply_shown {inner report : Report} {response : Response} (h : inner.Shown response.headers) :
    (inner.hardness ≤ report.hardness ∧ report.apply response = response) ∨
      (report.hardness < inner.hardness ∧ report.Shown (report.apply response).headers ∧
        ∀ wait, headerU64 response.headers retryAfter = some wait →
          headerU64 (report.apply response).headers retryAfter = some (max wait report.reset)) := by
  by_cases hkeeps : keepsInner response.headers report.remaining report.verdict = true
  · refine Or.inl ⟨(keepsInner_of_shown h).mp hkeeps, ?_⟩
    rw [Report.apply, maybeTightenRateHeaders, if_pos hkeeps]
  · have hhard := (keepsInner_of_shown h).not.mp hkeeps
    exact Or.inr ⟨not_le.mp hhard, apply_of_not_keepsInner hkeeps⟩

/-- What holds of the response once every phase has reported: it shows the hardest budget, and a wait
it announced is no shorter and covers the reset of a budget that replaced the innermost. -/
structure Settled (before after : Response) (inner : Option Report) (hardest : Report) : Prop where
  shown : hardest.Shown after.headers
  waits : ∀ wait, headerU64 before.headers retryAfter = some wait →
    ∃ longer, headerU64 after.headers retryAfter = some longer ∧ wait ≤ longer ∧
      (inner = some hardest ∨ hardest.reset ≤ longer)

theorem Settled.after_apply {response after : Response} {report hardest : Report}
    (h : Settled (report.apply response) after (some report) hardest)
    (hwaits : ∀ wait, headerU64 response.headers retryAfter = some wait →
      headerU64 (report.apply response).headers retryAfter = some (max wait report.reset))
    (inner : Option Report) : Settled response after inner hardest where
  shown := h.shown
  waits := by
    intro wait hwait
    obtain ⟨longer, hlonger, hle, hcovers⟩ := h.waits _ (hwaits wait hwait)
    refine ⟨longer, hlonger, (Nat.le_max_left _ _).trans hle, Or.inr ?_⟩
    rcases hcovers with hsame | hcovers
    · rw [← Option.some.inj hsame]
      exact (Nat.le_max_right _ _).trans hle
    · exact hcovers

theorem applyAll_shown (reports : List Report) : ∀ {inner : Report} {response : Response},
    inner.Shown response.headers →
      ∃ hardest ∈ inner :: reports, Settled response (applyAll reports response) (some inner) hardest ∧
        ∀ other ∈ inner :: reports, hardest.hardness ≤ other.hardness := by
  -- outwards from the innermost phase: `inner` is the hardest budget of the phases passed so far
  induction reports with
  | nil =>
      intro inner response h
      refine ⟨inner, List.mem_cons_self, ⟨h, ?_⟩, ?_⟩
      · exact fun wait hwait => ⟨wait, hwait, Nat.le_refl _, Or.inl rfl⟩
      · intro other hother
        rw [List.mem_singleton.mp hother]
  | cons report reports ih =>
      intro inner response h
      have hall : applyAll (report :: reports) response = applyAll reports (report.apply response) := rfl
      rcases @apply_shown inner report response h with ⟨hhard, hsame⟩ | ⟨hhard, hshown, hwaits⟩
      · obtain ⟨hardest, hmem, hsettled, hleast⟩ := ih h
        rw [hall, hsame]
        refine ⟨hardest, ?_, hsettled, ?_⟩
        · exact List.mem_cons.mpr ((List.mem_cons.mp hmem).imp_right (List.mem_cons_of_mem _))
        · intro other hother
          rcases List.mem_cons.mp hother with rfl | hother
          · exact hleast _ List.mem_cons_self
          · rcases List.mem_cons.mp hother with rfl | hother
            · exact (hleast inner List.mem_cons_self).trans hhard
            · exact hleast other (List.mem_cons_of_mem _ hother)
      · obtain ⟨hardest, hmem, hsettled, hleast⟩ := ih hshown
        rw [hall]
        refine ⟨hardest, List.mem_cons_of_mem _ hmem, hsettled.after_apply hwaits _, ?_⟩
        intro other hother
        rcases List.mem_cons.mp hother with rfl | hother
        · exact (hleast report List.mem_cons_self).trans hhard.le
        · exact hleast other hother

/-- **The response reports the budget that binds first.** However many phases a response passes on its
way out, and whether the innermost admitted the request or turned it away, the headers are those of the
budget with the fewest requests left, of equals the one that resets last; and a wait already announced
only grows, to cover that reset when another budget than the announcing one is shown. -/
theorem phases_show_hardest {inner : Option Report} {response : Response}
    (h : ShowsInner inner response.headers) {reports : List Report}
    (hne : inner.toList ++ reports ≠ []) :
    ∃ hardest ∈ inner.toList ++ reports, Settled response (applyAll reports response) inner hardest ∧
      ∀ other ∈ inner.toList ++ reports, hardest.hardness ≤ other.hardness := by
  cases inner with
  | some inner => exact applyAll_shown reports h
  | none =>
      cases reports with
      | nil => exact absurd rfl hne
      | cons report reports =>
          have hkeeps : ¬ keepsInner response.headers report.remaining report.verdict = true := by
            have hnone : headerU64 response.headers ratelimitRemaining = none := h
            rw [keepsInner, hnone]
            simp
          obtain ⟨hshown, hwaits⟩ := apply_of_not_keepsInner hkeeps
          obtain ⟨hardest, hmem, hsettled, hleast⟩ := applyAll_shown reports hshown
          exact ⟨hardest, hmem, hsettled.after_apply hwaits none, hleast⟩

theorem shown_tooManyRequests (report : Report) :
    report.Shown (tooManyRequests report.limit report.remaining report.verdict).headers :=
  (shown_attachRateHeaders report _).insert (by decide) _

def minuteReport : Report where
  limit := 60
  remaining := 0
  verdict := ⟨false, 0, 0, nanosPerSec, 60 * nanosPerSec⟩
  limit_lt := by omega
  remaining_lt := by omega

def hourReport : Report where
  limit := 1000
  remaining := 0
  verdict := ⟨true, 0, 0, 0, 3600 * nanosPerSec⟩
  limit_lt := by omega
  remaining_lt := by omega

theorem hour_shown_over_minute :
    let response := tooManyRequests minuteReport.limit minuteReport.remaining minuteReport.verdict
    ∃ hardest ∈ [minuteReport, hourReport],
      Settled response (applyAll [hourReport] response) (some minuteReport) hardest ∧
        ∀ other ∈ [minuteReport, hourReport], hardest.hardness ≤ other.hardness :=
  @phases_show_hardest (some minuteReport) _ (shown_tooManyRequests minuteReport) [hourReport]
    (List.cons_ne_nil _ _)

end StructuredProxy.Shield

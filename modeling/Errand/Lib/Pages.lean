import Mathlib.Data.List.Basic

/-
  Errand.Lib.Pages — a search through a listing that is fetched page by page.

  The pages are asked for one after another until one has what is sought; a request may fail,
  and the search with it. `Interrupted` says which searches do: a request fails, and no page
  in front of it has what is sought.

  Rules: `scan_interrupted`, `scan_found`: a search that is not interrupted finds the first
  entry of the whole listing, however it is split.
-/

namespace Errand.Lib.Pages

universe u

variable {α : Type u} (p : α → Bool) (fails : Nat → Bool)

/-- What the search finds, or nothing if a request fails, and the number of the next request. -/
def scan : Nat → List (List α) → Option (Option α) × Nat
  | n, [] => (some none, n)
  | n, page :: pages =>
    if fails n then (none, n + 1)
    else
      match page.find? p with
      | some a => (some (some a), n + 1)
      | none => scan (n + 1) pages

/-- A request fails, and no page in front of it has what is sought. -/
def Interrupted (n : Nat) (pages : List (List α)) : Prop :=
  ∃ i < pages.length, fails (n + i) = true ∧ ∀ page ∈ pages.take i, ∀ a ∈ page, p a = false

variable {p fails}

theorem interrupted_cons {n : Nat} {page : List α} {pages : List (List α)} :
    Interrupted p fails n (page :: pages) ↔
      fails n = true ∨ (∀ a ∈ page, p a = false) ∧ Interrupted p fails (n + 1) pages := by
  constructor
  · rintro ⟨i, hi, hfail, hclear⟩
    cases i with
    | zero => exact .inl hfail
    | succ i =>
      refine .inr ⟨hclear page (by simp), i, Nat.lt_of_succ_lt_succ hi, ?_, fun q hq => hclear q (by simp [hq])⟩
      rwa [Nat.add_assoc, Nat.add_comm 1]
  · rintro (hfail | ⟨hpage, i, hi, hfail, hclear⟩)
    · exact ⟨0, by simp, hfail, by simp⟩
    · refine ⟨i + 1, Nat.succ_lt_succ hi, ?_, fun q hq => ?_⟩
      · rwa [Nat.add_assoc, Nat.add_comm 1] at hfail
      · rw [List.take_succ_cons, List.mem_cons] at hq
        rcases hq with rfl | hq
        · exact hpage
        · exact hclear q hq

theorem scan_interrupted {n : Nat} {pages : List (List α)} (h : Interrupted p fails n pages) :
    (scan p fails n pages).1 = none := by
  induction pages generalizing n with
  | nil =>
    obtain ⟨i, hi, -⟩ := h
    exact absurd hi (Nat.not_lt_zero i)
  | cons page pages ih =>
    rcases interrupted_cons.mp h with hfail | ⟨hpage, hrest⟩
    · rw [scan, if_pos hfail]
    · have hnone : page.find? p = none := by simpa using hpage
      rw [scan, hnone]
      split
      · rfl
      · exact ih hrest

theorem scan_found {n : Nat} {pages : List (List α)} (h : ¬ Interrupted p fails n pages) :
    (scan p fails n pages).1 = some (pages.flatten.find? p) := by
  induction pages generalizing n with
  | nil => rfl
  | cons page pages ih =>
    rw [interrupted_cons, not_or] at h
    rw [scan, if_neg h.1, List.flatten_cons, List.find?_append]
    cases hpage : page.find? p with
    | some a => rfl
    | none =>
      rw [Option.none_or]
      exact ih fun hrest => h.2 ⟨by simpa using hpage, hrest⟩

end Errand.Lib.Pages

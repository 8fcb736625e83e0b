import Mathlib.Data.List.Basic

/-
  Errand.Lib.Pairing — histories in which some items open a key and others close one, and
  what is left of such a history when a stretch of it is cut out.

  A history is matched when every closing item has one that opens its key before it. A cut
  leaves a front and a rest; it severs a pair when an item of the rest closes a key that
  was opened in the stretch cut out and nowhere before it in what is left.

  Rules: being matched goes over appends (`matchedAfter_append`), an item that neither
  opens nor closes may be put anywhere (`matched_insert`), and what a cut leaves of a
  matched history is matched exactly if no pair is severed (`matched_cut_iff`).
-/

namespace Errand.Lib

universe u v

/-- The key an item opens, and the key it closes. -/
structure Pairing (α : Type u) (κ : Type v) where
  opens : α → Option κ
  closes : α → Option κ

namespace Pairing

variable {α : Type u} {κ : Type v} (P : Pairing α κ)

/-- Every closing item of `l` has one that opens its key before it, in `before` or in `l`. -/
def MatchedAfter (before l : List α) : Prop :=
  ∀ pre x post c, l = pre ++ x :: post → P.closes x = some c → ∃ y ∈ before ++ pre, P.opens y = some c

def Matched (l : List α) : Prop := P.MatchedAfter [] l

/-- An item of `kept` closes a key that is opened in `dropped`, and not before it in what
    is left. -/
def Severed (front dropped kept : List α) : Prop :=
  ∃ pre x post c, kept = pre ++ x :: post ∧ P.closes x = some c ∧ (∃ y ∈ dropped, P.opens y = some c) ∧
    ∀ y ∈ front ++ pre, P.opens y ≠ some c

variable {P}

theorem matchedAfter_append (before l m : List α) :
    P.MatchedAfter before (l ++ m) ↔ P.MatchedAfter before l ∧ P.MatchedAfter (before ++ l) m := by
  constructor
  · intro h
    constructor
    · intro pre x post c hl hc
      exact h pre x (post ++ m) c (by rw [hl]; simp) hc
    · intro pre x post c hm hc
      rw [List.append_assoc]
      exact h (l ++ pre) x post c (by rw [hm]; simp) hc
  · intro hp pre x post c h hc
    obtain ⟨hl, hm⟩ := hp
    rcases List.append_eq_append_iff.mp h with ⟨mid, rfl, hm'⟩ | ⟨mid, hl', hx⟩
    · obtain ⟨y, hy, ho⟩ := hm mid x post c hm' hc
      exact ⟨y, by rwa [← List.append_assoc], ho⟩
    · cases mid with
      | nil =>
        obtain ⟨y, hy, ho⟩ := hm [] x post c (by simpa using hx.symm) hc
        refine ⟨y, ?_, ho⟩
        simpa [hl'] using hy
      | cons z mid =>
        simp only [List.cons_append, List.cons.injEq] at hx
        obtain ⟨rfl, -⟩ := hx
        exact hl pre x mid c hl' hc

theorem matchedAfter_singleton (before : List α) (x : α) :
    P.MatchedAfter before [x] ↔ ∀ c, P.closes x = some c → ∃ y ∈ before, P.opens y = some c := by
  constructor
  · intro h c hc
    obtain ⟨y, hy, ho⟩ := h [] x [] c rfl hc
    exact ⟨y, by simpa using hy, ho⟩
  · intro h pre y post c hl hc
    cases pre with
    | nil =>
      cases hl
      obtain ⟨z, hz, ho⟩ := h c hc
      exact ⟨z, List.mem_append_left _ hz, ho⟩
    | cons z pre => simp at hl

/-- A matched history, item by item. -/
theorem matchedAfter_cons (before : List α) (x : α) (l : List α) :
    P.MatchedAfter before (x :: l) ↔
      (∀ c, P.closes x = some c → ∃ y ∈ before, P.opens y = some c) ∧ P.MatchedAfter (before ++ [x]) l := by
  rw [← matchedAfter_singleton, ← matchedAfter_append, List.singleton_append]

theorem matchedAfter_mono {before before' l : List α} (hb : before ⊆ before') (h : P.MatchedAfter before l) :
    P.MatchedAfter before' l := by
  intro pre x post c hl hc
  obtain ⟨y, hy, ho⟩ := h pre x post c hl hc
  refine ⟨y, ?_, ho⟩
  rcases List.mem_append.mp hy with hy | hy
  · exact List.mem_append_left _ (hb hy)
  · exact List.mem_append_right _ hy

theorem matchedAfter_neutral {before mid l : List α} (hm : ∀ y ∈ mid, P.opens y = none) :
    P.MatchedAfter (before ++ mid) l ↔ P.MatchedAfter before l := by
  constructor
  · intro h pre x post c hl hc
    obtain ⟨y, hy, ho⟩ := h pre x post c hl hc
    refine ⟨y, ?_, ho⟩
    simp only [List.mem_append] at hy ⊢
    rcases hy with (hy | hy) | hy
    · exact .inl hy
    · rw [hm y hy] at ho; cases ho
    · exact .inr hy
  · exact matchedAfter_mono (List.subset_append_left ..)

theorem matched_insert {x : α} (ho : P.opens x = none) (hc : P.closes x = none) (l m : List α) :
    P.Matched (l ++ x :: m) ↔ P.Matched (l ++ m) := by
  have hx : ∀ c, P.closes x = some c → ∃ y ∈ [] ++ l, P.opens y = some c := by
    intro c h
    rw [hc] at h
    cases h
  have hm : P.MatchedAfter ([] ++ l ++ [x]) m ↔ P.MatchedAfter ([] ++ l) m := by
    apply matchedAfter_neutral
    intro y hy
    rw [List.mem_singleton.mp hy]
    exact ho
  unfold Matched
  rw [matchedAfter_append, matchedAfter_cons, and_iff_right hx, hm, matchedAfter_append]

theorem matched_cut_iff {front dropped kept : List α} (h : P.Matched (front ++ dropped ++ kept)) :
    P.Matched (front ++ kept) ↔ ¬ P.Severed front dropped kept := by
  obtain ⟨hfd, hk⟩ := (matchedAfter_append [] (front ++ dropped) kept).mp h
  have hf : P.MatchedAfter [] front := ((matchedAfter_append [] front dropped).mp hfd).1
  unfold Matched
  rw [matchedAfter_append, and_iff_right hf, List.nil_append]
  constructor
  · intro hkept hp
    obtain ⟨pre, x, post, c, hx, hc, -, hno⟩ := hp
    obtain ⟨y, hy, ho⟩ := hkept pre x post c hx hc
    exact hno y hy ho
  · intro hsev pre x post c hx hc
    by_contra hno
    push Not at hno
    obtain ⟨y, hy, ho⟩ := hk pre x post c hx hc
    simp only [List.nil_append, List.mem_append] at hy hno
    apply hsev
    refine ⟨pre, x, post, c, hx, hc, ⟨y, ?_, ho⟩, ?_⟩
    · rcases hy with (hy | hy) | hy
      · exact absurd ho (hno y (.inl hy))
      · exact hy
      · exact absurd ho (hno y (.inr hy))
    · intro z hz
      exact hno z (List.mem_append.mp hz)

end Pairing

end Errand.Lib

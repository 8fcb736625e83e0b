import Mathlib.Data.List.Basic
import Mathlib.Order.Bounds.Basic
import Mathlib.Order.MinMax

/-
  Errand.Lib.Crossings — a value measured again and again against thresholds, and a set
  that remembers which of them it is past.

  A measurement forgets the thresholds it is below and adds those it has newly reached.

  Rules:
  - `past_measured`: after a measurement the set holds just the thresholds it reaches.
  - `mem_newly_iff`: newly reached are those at or below the value that lie above the
    one measured before.
-/

namespace Errand.Lib

universe u

variable {α : Type u} [LinearOrder α]

/-- The set without the thresholds the value is below. -/
def forgotten (thresholds : List α) (value : α) (crossed : List α) : List α :=
  thresholds.foldl (fun crossed t => if value < t then crossed.filter (· ≠ t) else crossed) crossed

def newly (thresholds : List α) (value : α) (crossed : List α) : List α :=
  thresholds.filter fun t => t ≤ value ∧ t ∉ crossed

/-- The set holds the thresholds at or below the value last measured. -/
def Past (thresholds : List α) (last : Option α) (crossed : List α) : Prop :=
  ∀ t, t ∈ crossed ↔ t ∈ thresholds ∧ ∃ p, last = some p ∧ t ≤ p

theorem past_nothing (thresholds : List α) : Past thresholds none [] := by
  intro t
  simp

theorem mem_forgotten_iff {thresholds : List α} {value : α} {crossed : List α} {t : α} :
    t ∈ forgotten thresholds value crossed ↔ t ∈ crossed ∧ (t ∈ thresholds → t ≤ value) := by
  unfold forgotten
  induction thresholds generalizing crossed with
  | nil => simp
  | cons u thresholds ih =>
    rw [List.foldl_cons, ih]
    by_cases hu : value < u
    · rw [if_pos hu, List.mem_filter]
      constructor
      · intro h
        obtain ⟨⟨hc, hne⟩, hle⟩ := h
        refine ⟨hc, fun ht => ?_⟩
        rcases List.mem_cons.mp ht with rfl | ht
        · simp at hne
        · exact hle ht
      · intro h
        obtain ⟨hc, hle⟩ := h
        refine ⟨⟨hc, ?_⟩, fun ht => hle (List.mem_cons_of_mem _ ht)⟩
        rw [decide_eq_true_iff]
        rintro rfl
        exact absurd (hle (List.mem_cons_self ..)) (not_le.mpr hu)
    · rw [if_neg hu, List.mem_cons]
      constructor
      · intro h
        refine ⟨h.1, fun ht => ?_⟩
        rcases ht with rfl | ht
        · exact not_lt.mp hu
        · exact h.2 ht
      · intro h
        exact ⟨h.1, fun ht => h.2 (Or.inr ht)⟩

section Measured

variable {thresholds : List α} {last : Option α} {crossed : List α}

/-- What is left of the set: the thresholds that neither measurement is below. -/
theorem mem_left_iff (h : Past thresholds last crossed) {value t : α} :
    t ∈ forgotten thresholds value crossed ↔ t ∈ thresholds ∧ t ≤ value ∧ ∃ p, last = some p ∧ t ≤ p := by
  rw [mem_forgotten_iff, h t]
  constructor
  · intro ht
    exact ⟨ht.1.1, ht.2 ht.1.1, ht.1.2⟩
  · intro ht
    exact ⟨⟨ht.1, ht.2.2⟩, fun _ => ht.2.1⟩

theorem mem_newly_iff (h : Past thresholds last crossed) {value t : α} :
    t ∈ newly thresholds value (forgotten thresholds value crossed) ↔
      t ∈ thresholds ∧ t ≤ value ∧ ∀ p, last = some p → p < t := by
  rw [newly, List.mem_filter, decide_eq_true_iff, mem_left_iff h]
  constructor
  · intro ht
    obtain ⟨hm, hle, hnot⟩ := ht
    refine ⟨hm, hle, fun p hp => not_le.mp fun hpt => ?_⟩
    exact hnot ⟨hm, hle, p, hp, hpt⟩
  · intro ht
    obtain ⟨hm, hle, hbelow⟩ := ht
    refine ⟨hm, hle, fun hleft => ?_⟩
    obtain ⟨-, -, p, hp, hpt⟩ := hleft
    exact absurd hpt (not_le.mpr (hbelow p hp))

theorem past_measured (h : Past thresholds last crossed) (value : α) :
    Past thresholds (some value)
      (forgotten thresholds value crossed ++ newly thresholds value (forgotten thresholds value crossed)) := by
  intro t
  rw [List.mem_append, mem_left_iff h, mem_newly_iff h]
  constructor
  · intro ht
    rcases ht with ht | ht
    · exact ⟨ht.1, value, rfl, ht.2.1⟩
    · exact ⟨ht.1, value, rfl, ht.2.1⟩
  · intro ht
    obtain ⟨hm, p, hp, hle⟩ := ht
    cases hp
    by_cases hpast : ∃ p, last = some p ∧ t ≤ p
    · exact Or.inl ⟨hm, hle, hpast⟩
    · refine Or.inr ⟨hm, hle, fun p hp => not_le.mp fun hpt => ?_⟩
      exact hpast ⟨p, hp, hpt⟩

end Measured

theorem max?_isGreatest {l : List α} {t : α} (h : l.max? = some t) : IsGreatest {u | u ∈ l} t := by
  rw [List.max?_eq_some_iff] at h
  exact h

end Errand.Lib

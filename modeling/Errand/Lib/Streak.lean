import Mathlib.Data.List.Basic
import Mathlib.Data.List.Infix

/-
  Errand.Lib.Streak — how often the last value of a list stands at its end, without a break.

  Rules:
  - `streak_concat`: one more value lengthens the streak or begins a new one.
  - `le_streak_iff`: a streak of `n` is `n` equal values at the end.
  - `streak_map`: an image has the same streak where the values can be told from it.
-/

namespace Errand.Lib

universe u v

variable {ρ : Type u} [DecidableEq ρ]

def streak (l : List ρ) : Nat :=
  match l.reverse with
  | [] => 0
  | r :: rest => (rest.takeWhile (· = r)).length + 1

theorem streak_concat (l : List ρ) (r : ρ) :
    streak (l ++ [r]) = if l.getLast? = some r then streak l + 1 else 1 := by
  unfold streak
  rw [List.reverse_append, List.reverse_singleton, List.singleton_append, List.getLast?_eq_head?_reverse]
  cases l.reverse with
  | nil => rfl
  | cons s rest =>
    by_cases h : s = r
    · subst h
      simp
    · simp [h]

theorem le_takeWhile_iff (r : ρ) (l : List ρ) (n : Nat) :
    n ≤ (l.takeWhile (· = r)).length ↔ List.replicate n r <+: l := by
  induction l generalizing n with
  | nil => cases n <;> simp [List.replicate_succ]
  | cons s l ih =>
    cases n with
    | zero => simp
    | succ n =>
      rw [List.replicate_succ, List.cons_prefix_cons]
      by_cases h : s = r
      · subst h
        simp [ih]
      · simp [h, Ne.symm h]

theorem le_streak_iff {l : List ρ} {n : Nat} (hn : 0 < n) : n ≤ streak l ↔ ∃ r, List.replicate n r <:+ l := by
  obtain ⟨m, rfl⟩ : ∃ m, n = m + 1 := ⟨n - 1, by omega⟩
  have hsuffix : ∀ r, List.replicate (m + 1) r <:+ l ↔ r :: List.replicate m r <+: l.reverse := by
    intro r
    rw [← List.reverse_prefix, List.reverse_replicate, List.replicate_succ]
  simp only [hsuffix]
  unfold streak
  cases l.reverse with
  | nil => simp
  | cons s rest =>
    simp only [Nat.add_le_add_iff_right, le_takeWhile_iff, List.cons_prefix_cons]
    constructor
    · intro h
      exact ⟨s, rfl, h⟩
    · intro hmem
      rcases hmem with ⟨r, rfl, h⟩
      exact h

theorem streak_map {τ : Type v} [DecidableEq τ] {f : ρ → τ} {l : List ρ}
    (hf : ∀ a ∈ l, ∀ b ∈ l, f a = f b → a = b) : streak (l.map f) = streak l := by
  induction l using List.reverseRecOn with
  | nil => rfl
  | append_singleton l r ih =>
    have hl : ∀ a ∈ l, ∀ b ∈ l, f a = f b → a = b := by
      intro a ha b hb
      exact hf a (List.mem_append_left _ ha) b (List.mem_append_left _ hb)
    have hlast : (l.map f).getLast? = some (f r) ↔ l.getLast? = some r := by
      rw [List.getLast?_map]
      constructor
      · intro h
        obtain ⟨a, ha, hfa⟩ := Option.map_eq_some_iff.mp h
        have hmem : a ∈ l := List.mem_of_getLast? ha
        rw [ha, hf a (List.mem_append_left _ hmem) r (by simp) hfa]
      · intro h
        rw [h, Option.map_some]
    rw [List.map_append, List.map_singleton, streak_concat, streak_concat, ih hl]
    by_cases h : l.getLast? = some r
    · rw [if_pos h, if_pos (hlast.mpr h)]
    · rw [if_neg h, if_neg (fun h' => h (hlast.mp h'))]

end Errand.Lib

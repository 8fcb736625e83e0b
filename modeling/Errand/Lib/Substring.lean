import Errand.Lib.Search

/-
  Errand.Lib.Substring — how often a pattern occurs in a text: `str.count` and
  `str.replace(_, _, 1)`.

  An occurrence is a way to split the text around the pattern. `count` passes over what it
  has counted, so of occurrences that overlap it counts the first.

  Rules:
  - `splitFirst_le`: no occurrence begins before the first.
  - `count_zero_iff`, `count_one_iff`: what a count of none says, and one of one: the first
    occurrence overlaps all others (`Clustered`).
  - `once_clustered`: a single occurrence is counted once.
-/

namespace Errand.Lib.Substring

open Search

variable {α : Type}

/-! ## Occurrences -/

/-- The pattern occurs at one position. -/
def Once (pat s : List α) : Prop := ∃ a b, s = a ++ pat ++ b ∧ ∀ x y, s = x ++ pat ++ y → x = a

/-- The pattern occurs, and every occurrence begins within the first. -/
def Clustered (pat s : List α) : Prop :=
  ∃ a b, s = a ++ pat ++ b ∧ ∀ x y, s = x ++ pat ++ y → a.length ≤ x.length ∧ x.length < a.length + pat.length

/-- Two occurrences at one place are one. -/
theorem occurrence_unique {pat a b x y : List α} (h : a ++ pat ++ b = x ++ pat ++ y) (hlen : a.length = x.length) :
    a = x ∧ b = y := by
  rw [List.append_assoc, List.append_assoc] at h
  obtain ⟨ha, h⟩ := List.append_inj h hlen
  exact ⟨ha, List.append_cancel_left h⟩

/-- No occurrence lies behind the first one's end. -/
theorem rest_free_iff {pat s a b : List α} (h : s = a ++ pat ++ b) :
    ¬ pat <:+: b ↔ ∀ x y, s = x ++ pat ++ y → x.length < a.length + pat.length := by
  constructor
  · intro hb x y hs
    by_contra hle
    have hxy : a ++ pat ++ b = x ++ (pat ++ y) := by rw [← h, hs, List.append_assoc]
    obtain ⟨z, hx, hrest⟩ | ⟨z, hx, hrest⟩ := List.append_eq_append_iff.mp hxy
    · exact hb ⟨z, y, by rw [hrest, List.append_assoc]⟩
    · -- the two meet
      have hlen := congrArg List.length hx
      rw [List.length_append, List.length_append] at hlen
      have hz : z = [] := List.eq_nil_of_length_eq_zero (by omega)
      subst hz
      exact hb ⟨[], y, by rw [List.nil_append]; simpa using hrest⟩
  · intro hall hb
    obtain ⟨x, y, hxy⟩ := hb
    have hlt := hall (a ++ pat ++ x) y (by rw [h, ← hxy]; simp)
    rw [List.length_append, List.length_append] at hlt
    omega

theorem once_clustered {pat s : List α} (hpat : pat ≠ []) (h : Once pat s) : Clustered pat s := by
  obtain ⟨a, b, hs, hall⟩ := h
  refine ⟨a, b, hs, fun x y hxy => ?_⟩
  rw [hall x y hxy]
  have hpos := List.length_pos_iff.mpr hpat
  exact ⟨Nat.le_refl _, by omega⟩

/-! ## Counting -/

variable [DecidableEq α]

/-- The occurrences, where so many characters are passed over first. -/
def countFrom (pat : List α) : Nat → List α → Nat
  | _, [] => 0
  | 0, c :: s => if pat.isPrefixOf (c :: s) then countFrom pat (pat.length - 1) s + 1 else countFrom pat 0 s
  | skip + 1, _ :: s => countFrom pat skip s

/-- `s.count(pat)`. -/
def count (pat s : List α) : Nat := if pat = [] then s.length + 1 else countFrom pat 0 s

/-- `s.replace(pat, new, 1)`. -/
def replaceFirst (pat new s : List α) : List α :=
  match splitFirst pat s with
  | none => s
  | some r => r.1 ++ new ++ r.2

theorem splitFirst_le {pat s a b : List α} (h : splitFirst pat s = some (a, b)) {x y : List α}
    (hs : s = x ++ pat ++ y) : a.length ≤ x.length := by
  induction s generalizing a x with
  | nil =>
    obtain ⟨rest, -, heq⟩ := Option.map_eq_some_iff.mp h
    cases heq
    exact Nat.zero_le _
  | cons c s ih =>
    unfold splitFirst at h
    split at h
    · cases h
      exact Nat.zero_le _
    · rename_i hpre
      obtain ⟨⟨a', b'⟩, hs', heq⟩ := Option.map_eq_some_iff.mp h
      cases heq
      cases x with
      | nil => exact absurd ⟨y, hs.symm⟩ (isPrefixOf?_none hpre)
      | cons d x =>
        obtain ⟨-, hs⟩ := List.cons.inj hs
        exact Nat.succ_le_succ (ih hs' hs)

theorem countFrom_skip (pat : List α) (skip : Nat) (s : List α) : countFrom pat skip s = countFrom pat 0 (s.drop skip) := by
  induction s generalizing skip with
  | nil =>
    rw [List.drop_nil]
    cases skip <;> rfl
  | cons c s ih =>
    cases skip with
    | zero => rfl
    | succ skip =>
      rw [countFrom, List.drop_succ_cons]
      exact ih skip

theorem countFrom_none {pat s : List α} (h : splitFirst pat s = none) : countFrom pat 0 s = 0 := by
  induction s with
  | nil => rfl
  | cons c s ih =>
    unfold splitFirst at h
    split at h
    · cases h
    · rename_i hpre
      rw [countFrom, if_neg ?_]
      · exact ih (Option.map_eq_none_iff.mp h)
      · rw [List.isPrefixOf_iff_prefix]
        exact isPrefixOf?_none hpre

theorem countFrom_some {pat s a b : List α} (hpat : pat ≠ []) (h : splitFirst pat s = some (a, b)) :
    countFrom pat 0 s = countFrom pat 0 b + 1 := by
  induction s generalizing a with
  | nil =>
    obtain ⟨rest, hrest, -⟩ := Option.map_eq_some_iff.mp h
    have hnil := isPrefixOf?_some hrest
    exact absurd (List.append_eq_nil_iff.mp hnil.symm).1 hpat
  | cons c s ih =>
    unfold splitFirst at h
    split at h
    · rename_i rest hrest
      cases h
      have hs := isPrefixOf?_some hrest
      obtain ⟨d, pat', rfl⟩ := List.exists_cons_of_ne_nil hpat
      rw [countFrom, if_pos (List.isPrefixOf_iff_prefix.mpr ⟨b, hs.symm⟩), countFrom_skip]
      obtain ⟨-, hrest⟩ : c = d ∧ s = pat' ++ b := List.cons.inj hs
      rw [hrest, List.length_cons, Nat.add_sub_cancel, List.drop_left]
    · rename_i hpre
      obtain ⟨⟨a', b'⟩, hs, heq⟩ := Option.map_eq_some_iff.mp h
      cases heq
      rw [countFrom, if_neg ?_]
      · exact ih hs
      · rw [List.isPrefixOf_iff_prefix]
        exact isPrefixOf?_none hpre

theorem count_zero_iff {pat s : List α} (hpat : pat ≠ []) : count pat s = 0 ↔ ¬ pat <:+: s := by
  rw [count, if_neg hpat, ← splitFirst_none_iff]
  cases h : splitFirst pat s with
  | none => exact iff_of_true (countFrom_none h) rfl
  | some r => exact iff_of_false (by rw [countFrom_some hpat h]; omega) nofun

/-- A count of one, by the first occurrence. -/
theorem count_one_split {pat s : List α} (hpat : pat ≠ []) :
    count pat s = 1 ↔ ∃ a b, splitFirst pat s = some (a, b) ∧ ¬ pat <:+: b := by
  rw [count, if_neg hpat]
  cases h : splitFirst pat s with
  | none => exact iff_of_false (by rw [countFrom_none h]; omega) nofun
  | some r =>
    obtain ⟨a, b⟩ := r
    have hrest := count_zero_iff (s := b) hpat
    rw [count, if_neg hpat] at hrest
    rw [countFrom_some hpat h, Nat.add_eq_right, hrest]
    constructor
    · intro hb
      exact ⟨a, b, rfl, hb⟩
    · intro hx
      obtain ⟨a', b', heq, hb⟩ := hx
      cases heq
      exact hb

theorem count_one_iff {pat s : List α} (hpat : pat ≠ []) : count pat s = 1 ↔ Clustered pat s := by
  rw [count_one_split hpat]
  constructor
  · intro hx
    obtain ⟨a, b, h, hb⟩ := hx
    refine ⟨a, b, splitFirst_some h, ?_⟩
    intro x y hs
    exact ⟨splitFirst_le h hs, (rest_free_iff (splitFirst_some h)).mp hb x y hs⟩
  · intro hx
    obtain ⟨a, b, hs, hall⟩ := hx
    cases h : splitFirst pat s with
    | none => exact absurd ⟨a, b, hs.symm⟩ (splitFirst_none h)
    | some r =>
      have hfirst := splitFirst_some h
      have hlen : a.length = r.1.length :=
        Nat.le_antisymm (hall _ _ hfirst).1 (splitFirst_le (a := r.1) (b := r.2) h hs)
      refine ⟨r.1, r.2, rfl, (rest_free_iff hfirst).mpr fun x y hxy => ?_⟩
      rw [← hlen]
      exact (hall x y hxy).2

example : count [1, 1] [1, 1, 1] = 1 := by decide

/-- The one split there is. -/
theorem once_split {pat s : List α} (h : Once pat s) {a b : List α} (hs : s = a ++ pat ++ b) :
    splitFirst pat s = some (a, b) := by
  obtain ⟨a₀, b₀, -, hall⟩ := h
  cases hf : splitFirst pat s with
  | none => exact absurd ⟨a, b, hs.symm⟩ (splitFirst_none hf)
  | some r =>
    have hfirst := splitFirst_some (a := r.1) (b := r.2) hf
    have ha : r.1 = a := (hall _ _ hfirst).trans (hall _ _ hs).symm
    rw [hs] at hfirst
    obtain ⟨-, hb⟩ := occurrence_unique hfirst (congrArg List.length ha.symm)
    rw [← ha, hb]

end Errand.Lib.Substring

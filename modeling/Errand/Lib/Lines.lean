import Mathlib.Data.List.Basic

/-
  Errand.Lib.Lines — a text taken apart at a separator: the parts in front of each one, and
  what is left behind the last, as the loop `while sep in buf: line, buf = buf.split(sep, 1)`
  takes them.

  Rules:
  - `lines_induction`: a text has no separator, or begins with a line.
  - `split_append`: reading on from what was left is reading the whole.
  - `join_split`, `split_join`: the parts give the text back.
  - `all_join`, `mem_all`, `all_concat`: the lines of a whole text, and of one with a last
    character more.
  - `split_hom`: a map that keeps lines apart maps each of them.
-/

namespace Errand.Lib.Lines

variable {α β : Type} [DecidableEq α] [DecidableEq β]

def split (sep : α) : List α → List (List α) × List α
  | [] => ([], [])
  | c :: s =>
    if c = sep then ([] :: (split sep s).1, (split sep s).2)
    else
      match (split sep s).1 with
      | [] => ([], c :: (split sep s).2)
      | line :: lines => ((c :: line) :: lines, (split sep s).2)

example : split '-' "ab--c".toList = (["ab".toList, []], "c".toList) := by decide

theorem split_notin {sep : α} {s : List α} (h : sep ∉ s) : split sep s = ([], s) := by
  induction s with
  | nil => rfl
  | cons c s ih =>
    rw [split, if_neg (Ne.symm (List.ne_of_not_mem_cons h)), ih (List.not_mem_of_not_mem_cons h)]

theorem split_line {sep : α} {a : List α} (h : sep ∉ a) (b : List α) :
    split sep (a ++ sep :: b) = (a :: (split sep b).1, (split sep b).2) := by
  induction a with
  | nil => rw [List.nil_append, split, if_pos rfl]
  | cons c a ih =>
    rw [List.cons_append, split, if_neg (Ne.symm (List.ne_of_not_mem_cons h)), ih (List.not_mem_of_not_mem_cons h)]

theorem lines_induction (sep : α) {P : List α → Prop} (hlast : ∀ s, sep ∉ s → P s)
    (hline : ∀ a b, sep ∉ a → P b → P (a ++ sep :: b)) (s : List α) : P s := by
  induction hn : s.length using Nat.strongRecOn generalizing s with
  | ind n ih =>
    by_cases hs : sep ∈ s
    · obtain ⟨a, b, rfl, ha⟩ := List.eq_append_cons_of_mem hs
      refine hline a b ha (ih b.length ?_ b rfl)
      rw [← hn, List.length_append, List.length_cons]
      omega
    · exact hlast s hs

/-- Reading on from what was left is reading the whole. -/
theorem split_append (sep : α) (s t : List α) :
    split sep (s ++ t) =
      ((split sep s).1 ++ (split sep ((split sep s).2 ++ t)).1, (split sep ((split sep s).2 ++ t)).2) := by
  induction s using lines_induction sep with
  | hlast s hs => rw [split_notin hs, List.nil_append]
  | hline a b ha ih => rw [List.append_assoc, List.cons_append, split_line ha, split_line ha, ih, List.cons_append]

theorem split_prefix (sep : α) {s t : List α} (h : s <+: t) : (split sep s).1 <+: (split sep t).1 := by
  obtain ⟨u, rfl⟩ := h
  rw [split_append]
  exact List.prefix_append ..

theorem join_split (sep : α) (s : List α) : ((split sep s).1.flatMap fun line => line ++ [sep]) ++ (split sep s).2 = s := by
  induction s using lines_induction sep with
  | hlast s hs => rw [split_notin hs, List.flatMap_nil, List.nil_append]
  | hline a b ha ih =>
    rw [split_line ha, List.flatMap_cons, List.append_assoc, ih, List.append_assoc, List.singleton_append]

theorem split_join {sep : α} {lines : List (List α)} (h : ∀ line ∈ lines, sep ∉ line) (rest : List α) (hrest : sep ∉ rest) :
    split sep ((lines.flatMap fun line => line ++ [sep]) ++ rest) = (lines, rest) := by
  induction lines with
  | nil => exact split_notin hrest
  | cons line lines ih =>
    rw [List.flatMap_cons, List.append_assoc, List.append_assoc, List.singleton_append,
      split_line (h line (List.mem_cons_self ..)), ih fun l hl => h l (List.mem_cons_of_mem _ hl)]

theorem split_rest_notin (sep : α) (s : List α) : sep ∉ (split sep s).2 := by
  induction s using lines_induction sep with
  | hlast s hs => rwa [split_notin hs]
  | hline a b ha ih => rwa [split_line ha]

/-- A map that keeps lines apart maps each of them. -/
theorem split_hom {sep : α} {sep' : β} {f : List α → List β}
    (hline : ∀ a b, sep ∉ a → f (a ++ sep :: b) = f a ++ sep' :: f b) (hnotin : ∀ a, sep ∉ a → sep' ∉ f a) (s : List α) :
    split sep' (f s) = ((split sep s).1.map f, f (split sep s).2) := by
  induction s using lines_induction sep with
  | hlast s hs =>
    rw [split_notin hs, split_notin (hnotin s hs)]
    rfl
  | hline a b ha ih => rw [hline a b ha, split_line (hnotin a ha), ih, split_line ha, List.map_cons]

/-! ## All lines -/

/-- The lines of a text, its end as good as a separator. -/
def all (sep : α) (s : List α) : List (List α) :=
  (split sep s).1 ++ if (split sep s).2 = [] then [] else [(split sep s).2]

theorem all_join {sep : α} {lines : List (List α)} (h : ∀ line ∈ lines, sep ∉ line) :
    all sep (lines.flatMap fun line => line ++ [sep]) = lines := by
  have hsplit := split_join h [] List.not_mem_nil
  rw [List.append_nil] at hsplit
  rw [all, hsplit, if_pos rfl, List.append_nil]

theorem mem_split {sep : α} {s line : List α} (h : line ∈ (split sep s).1) : sep ∉ line ∧ line ⊆ s := by
  induction s using lines_induction sep with
  | hlast s hs =>
    rw [split_notin hs] at h
    exact absurd h List.not_mem_nil
  | hline a b ha ih =>
    rw [split_line ha] at h
    rcases List.mem_cons.mp h with rfl | h
    · exact ⟨ha, List.subset_append_left ..⟩
    · obtain ⟨hsep, hsub⟩ := ih h
      exact ⟨hsep, fun c hc => List.mem_append_right _ (List.mem_cons_of_mem _ (hsub hc))⟩

/-- Each part stands in the text as it is. -/
theorem split_infix {sep : α} {s line : List α} (h : line ∈ (split sep s).1 ++ [(split sep s).2]) : line <:+: s := by
  induction s using lines_induction sep with
  | hlast s hs =>
    rw [split_notin hs, List.nil_append, List.mem_singleton] at h
    obtain rfl : line = s := h
    exact List.infix_rfl
  | hline a b ha ih =>
    rw [split_line ha, List.cons_append, List.mem_cons] at h
    rcases h with rfl | h
    · exact (List.prefix_append ..).isInfix
    · exact (ih h).trans ((List.suffix_cons sep b).trans (List.suffix_append a _)).isInfix

theorem split_rest_subset (sep : α) (s : List α) : (split sep s).2 ⊆ s := by
  intro c hc
  have hjoin := join_split sep s
  rw [← hjoin]
  exact List.mem_append_right _ hc

theorem mem_all {sep : α} {s line : List α} (h : line ∈ all sep s) : sep ∉ line ∧ line ⊆ s := by
  rcases List.mem_append.mp h with h | h
  · exact mem_split h
  · split at h
    · exact absurd h List.not_mem_nil
    · rw [List.mem_singleton.mp h]
      exact ⟨split_rest_notin sep s, split_rest_subset sep s⟩

theorem length_split (sep : α) (s : List α) : (split sep s).1.length = s.count sep := by
  induction s using lines_induction sep with
  | hlast s hs => rw [split_notin hs, List.count_eq_zero_of_not_mem hs, List.length_nil]
  | hline a b ha ih =>
    rw [split_line ha, List.length_cons, ih, List.count_append, List.count_eq_zero_of_not_mem ha, List.count_cons_self,
      Nat.zero_add]

theorem split_concat_sep (sep : α) (s : List α) : split sep (s ++ [sep]) = ((split sep s).1 ++ [(split sep s).2], []) := by
  have hlast := split_line (split_rest_notin sep s) []
  rw [split_append, hlast]
  rfl

theorem split_concat {sep c : α} (hc : c ≠ sep) (s : List α) :
    split sep (s ++ [c]) = ((split sep s).1, (split sep s).2 ++ [c]) := by
  have hrest : sep ∉ (split sep s).2 ++ [c] := by
    rw [List.mem_append, List.mem_singleton, not_or]
    exact ⟨split_rest_notin sep s, hc.symm⟩
  rw [split_append, split_notin hrest, List.append_nil]

/-- A text's lines end in a line without a separator behind it, or with one. -/
theorem all_concat_sep (sep : α) (s : List α) : all sep (s ++ [sep]) = (split sep s).1 ++ [(split sep s).2] := by
  rw [all, split_concat_sep, if_pos rfl, List.append_nil]

theorem all_concat {sep c : α} (hc : c ≠ sep) (s : List α) :
    all sep (s ++ [c]) = (split sep s).1 ++ [(split sep s).2 ++ [c]] := by
  rw [all, split_concat hc, if_neg (by simp)]

end Errand.Lib.Lines

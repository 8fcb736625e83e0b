import Mathlib.Data.List.Infix

/-
  Errand.Lib.Search — the first occurrence of a pattern in a text.

  `splitFirst pat s` is what stands before and after it (`str.find`, `str.partition`, or a
  literal in a pattern); `between o c s` is what a search for `o(.*?)c` captures, the dot
  matching line breaks.

  Rules:
  - `splitFirst_some`, `splitFirst_none_iff`: it is an occurrence, if there is one, and the
    first (`not_infix_before`).
  - `splitFirst_sep`: a pattern without the separator occurs on one side of it.
  - `between_sep`: a text between separators is found in what stands in front of a
    separator, or ends behind it, or stands there.
-/

namespace Errand.Lib.Search

variable {α : Type} [DecidableEq α]

/-- What stands before and after the first occurrence of a pattern. -/
def splitFirst (pat : List α) : List α → Option (List α × List α)
  | [] => (pat.isPrefixOf? []).map fun rest => ([], rest)
  | c :: s =>
    match pat.isPrefixOf? (c :: s) with
    | some rest => some ([], rest)
    | none => (splitFirst pat s).map fun r => (c :: r.1, r.2)

/-- What the first match of an opening and then a closing pattern has between them. -/
def between (opening closing s : List α) : Option (List α) :=
  (splitFirst opening s).bind fun r => (splitFirst closing r.2).map (·.1)

theorem isPrefixOf?_some {pat s rest : List α} (h : pat.isPrefixOf? s = some rest) : s = pat ++ rest :=
  (List.isPrefixOf?_eq_some_iff_append_eq.mp h).symm

theorem splitFirst_some {pat s a b : List α} (h : splitFirst pat s = some (a, b)) : s = a ++ pat ++ b := by
  induction s generalizing a with
  | nil =>
    obtain ⟨rest, hrest, heq⟩ := Option.map_eq_some_iff.mp h
    cases heq
    rw [List.nil_append]
    exact isPrefixOf?_some hrest
  | cons c s ih =>
    unfold splitFirst at h
    split at h
    · rename_i rest hrest
      cases h
      exact isPrefixOf?_some hrest
    · obtain ⟨⟨a', b'⟩, hs, heq⟩ := Option.map_eq_some_iff.mp h
      cases heq
      rw [ih hs]
      rfl

theorem isPrefixOf?_none {pat s : List α} (h : pat.isPrefixOf? s = none) : ¬ pat <+: s := by
  intro hsplit
  rcases hsplit with ⟨rest, hrest⟩
  rw [List.isPrefixOf?_eq_some_iff_append_eq.mpr hrest] at h
  cases h

theorem splitFirst_none {pat s : List α} (h : splitFirst pat s = none) : ¬ pat <:+: s := by
  induction s with
  | nil =>
    rw [List.infix_nil]
    intro heq
    subst heq
    cases h
  | cons c s ih =>
    unfold splitFirst at h
    split at h
    · cases h
    · rename_i hpre
      rw [List.infix_cons_iff, not_or]
      exact ⟨isPrefixOf?_none hpre, ih (Option.map_eq_none_iff.mp h)⟩

theorem splitFirst_none_iff {pat s : List α} : splitFirst pat s = none ↔ ¬ pat <:+: s := by
  refine ⟨splitFirst_none, ?_⟩
  intro h
  cases hs : splitFirst pat s with
  | none => rfl
  | some r => exact absurd ⟨r.1, r.2, (splitFirst_some hs).symm⟩ h

/-- The pattern does not occur in what stands before its first occurrence. -/
theorem not_infix_before {pat s a b : List α} (hpat : pat ≠ []) (h : splitFirst pat s = some (a, b)) : ¬ pat <:+: a := by
  induction s generalizing a with
  | nil =>
    obtain ⟨rest, -, heq⟩ := Option.map_eq_some_iff.mp h
    cases heq
    rw [List.infix_nil]
    exact hpat
  | cons c s ih =>
    unfold splitFirst at h
    split at h
    · cases h
      rw [List.infix_nil]
      exact hpat
    · rename_i hpre
      obtain ⟨⟨a', b'⟩, hs, heq⟩ := Option.map_eq_some_iff.mp h
      cases heq
      rw [List.infix_cons_iff, not_or]
      refine ⟨?_, ih hs⟩
      intro hp
      have hs' := splitFirst_some hs
      apply isPrefixOf?_none hpre
      rw [hs', List.append_assoc, ← List.cons_append]
      exact hp.trans (List.prefix_append _ _)

theorem isPrefixOf?_sep {pat : List α} {sep : α} (h : sep ∉ pat) (a b : List α) :
    pat.isPrefixOf? (a ++ sep :: b) = (pat.isPrefixOf? a).map (· ++ sep :: b) := by
  induction pat generalizing a with
  | nil => rfl
  | cons x pat ih =>
    rw [List.mem_cons, not_or] at h
    obtain ⟨hx, hpat⟩ := h
    cases a with
    | nil =>
      have hne : (x == sep) = false := beq_false_of_ne (Ne.symm hx)
      simp [List.isPrefixOf?, hne]
    | cons y a =>
      rw [List.cons_append, List.isPrefixOf?, List.isPrefixOf?]
      split
      · exact ih hpat a
      · rfl

/-- A pattern without the separator is found before it, or else after it. -/
theorem splitFirst_sep {pat : List α} {sep : α} (hpat : pat ≠ []) (h : sep ∉ pat) (a b : List α) :
    splitFirst pat (a ++ sep :: b) =
      match splitFirst pat a with
      | some r => some (r.1, r.2 ++ sep :: b)
      | none => (splitFirst pat b).map fun r => (a ++ sep :: r.1, r.2) := by
  induction a with
  | nil =>
    cases pat with
    | nil => exact absurd rfl hpat
    | cons x pat =>
      have hx : (x :: pat).isPrefixOf? (sep :: b) = none := isPrefixOf?_sep h [] b
      rw [List.nil_append]
      conv => lhs; rw [splitFirst, hx]
      rfl
  | cons c a ih =>
    rw [List.cons_append, splitFirst, splitFirst, ← List.cons_append, isPrefixOf?_sep h]
    cases hp : pat.isPrefixOf? (c :: a) with
    | some rest => rfl
    | none =>
      rw [ih]
      cases splitFirst pat a with
      | some r => rfl
      | none =>
        simp only [Option.map_none, Option.map_map]
        rfl

theorem splitFirst_self {pat : List α} (hpat : pat ≠ []) (b : List α) : splitFirst pat (pat ++ b) = some ([], b) := by
  cases pat with
  | nil => exact absurd rfl hpat
  | cons x pat =>
    have hself : (x :: pat).isPrefixOf? (x :: pat ++ b) = some b := List.isPrefixOf?_eq_some_iff_append_eq.mpr rfl
    rw [List.cons_append] at hself ⊢
    rw [splitFirst, hself]

/-- A pattern that is in none of the pieces is not in their join. -/
theorem not_infix_join {pat : List α} {sep : α} (hpat : pat ≠ []) (hsep : sep ∉ pat) {pieces : List (List α)}
    (h : ∀ piece ∈ pieces, ¬ pat <:+: piece) : ¬ pat <:+: [sep].intercalate pieces := by
  induction pieces with
  | nil =>
    rw [List.intercalate_nil, List.infix_nil]
    exact hpat
  | cons piece pieces ih =>
    obtain ⟨hp, hrest⟩ := List.forall_mem_cons.mp h
    cases pieces with
    | nil =>
      rw [List.intercalate_singleton]
      exact hp
    | cons next pieces =>
      rw [List.intercalate_cons_cons, List.append_assoc, List.singleton_append, ← splitFirst_none_iff,
        splitFirst_sep hpat hsep, splitFirst_none_iff.mpr hp, splitFirst_none_iff.mpr (ih hrest)]
      rfl

section

variable {opening closing : List α} {sep : α}

/-- What stands between two patterns without the separator: it is found in front of it, or
    it begins there and ends behind it, or all of it stands behind it. -/
theorem between_sep (ho : opening ≠ []) (hc : closing ≠ []) (hso : sep ∉ opening) (hsc : sep ∉ closing) (a b : List α) :
    between opening closing (a ++ sep :: b) =
      match splitFirst opening a with
      | some r =>
        match splitFirst closing r.2 with
        | some r' => some r'.1
        | none => (splitFirst closing b).map fun r' => r.2 ++ sep :: r'.1
      | none => between opening closing b := by
  unfold between
  rw [splitFirst_sep ho hso]
  cases splitFirst opening a with
  | some r =>
    simp only [Option.bind_some, splitFirst_sep hc hsc]
    cases splitFirst closing r.2 with
    | some r' => rfl
    | none => exact Option.map_map ..
  | none =>
    cases splitFirst opening b <;> rfl

theorem between_front (ho : opening ≠ []) (hc : closing ≠ []) (hso : sep ∉ opening) (hsc : sep ∉ closing)
    {a body : List α} (h : between opening closing a = some body) (b : List α) :
    between opening closing (a ++ sep :: b) = some body := by
  obtain ⟨r, hr, h⟩ := Option.bind_eq_some_iff.mp h
  obtain ⟨r', hr', h⟩ := Option.map_eq_some_iff.mp h
  rw [between_sep ho hc hso hsc, hr]
  simp only [hr', h]

/-- A block on lines of its own is found, from its opening or from one in front of it, if
    no block is found in front of it and its body has no closing. -/
theorem between_block (ho : opening ≠ []) (hc : closing ≠ []) (hso : sep ∉ opening) (hsc : sep ∉ closing)
    (hoc : ¬ closing <:+: opening) {a body : List α} (h : between opening closing a = none)
    (hbody : ¬ closing <:+: body) (rest : List α) :
    ∃ front, between opening closing (a ++ sep :: (opening ++ sep :: (body ++ sep :: (closing ++ rest)))) =
      some (front ++ sep :: (body ++ [sep])) := by
  -- where the body ends
  have hend : splitFirst closing (body ++ sep :: (closing ++ rest)) = some (body ++ [sep], rest) := by
    rw [splitFirst_sep hc hsc, splitFirst_none_iff.mpr hbody, splitFirst_self hc]
    rfl
  rw [between_sep ho hc hso hsc]
  cases hr : splitFirst opening a with
  | some r =>
    have hno : splitFirst closing r.2 = none := by
      unfold between at h
      rw [hr] at h
      exact Option.map_eq_none_iff.mp h
    refine ⟨r.2 ++ sep :: opening, ?_⟩
    simp only [hno]
    rw [splitFirst_sep hc hsc, splitFirst_none_iff.mpr hoc, hend]
    simp
  | none =>
    refine ⟨[], ?_⟩
    unfold between
    rw [splitFirst_self ho]
    show (splitFirst closing ([] ++ sep :: (body ++ sep :: (closing ++ rest)))).map (·.1) = _
    rw [splitFirst_sep hc hsc]
    have hnil : splitFirst closing [] = none := splitFirst_none_iff.mpr (by rw [List.infix_nil]; exact hc)
    rw [hnil, hend]
    rfl

end

end Errand.Lib.Search

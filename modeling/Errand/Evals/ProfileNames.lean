import Errand.Lib.PyStr
import Mathlib.Data.List.DropRight
import Mathlib.Data.List.Infix

/-
  Errand.Evals.ProfileNames — the names of the profiles an evaluation runs under
  (`derive_slug`, `eval_profile_name`; evals/runner.py).

  A slug has single hyphens, and none at its ends; a name has two in front of the slug. So where
  the slug begins can be told from the name.

  Proved:
  - `slug_spec`: a slug has no two hyphens in a row, and begins with none.
  - `evalProfileName_eq_iff`: two names are the same exactly if workload and slug are.
-/

namespace Errand.Evals.ProfileNames

open Errand.Lib.PyStr

abbrev Text := List Char

def isSlugChar (c : Char) : Bool := isLowerAscii c || ('0' ≤ c && c ≤ '9')

/-- `re.sub(r"[^a-z0-9]+", "-", s)`, behind a character that is replaced or not. -/
def squeeze : Bool → Text → Text
  | _, [] => []
  | behind, c :: s =>
    if isSlugChar c then c :: squeeze false s else if behind then squeeze true s else '-' :: squeeze true s

def isHyphen (c : Char) : Bool := c == '-'

/-- `derive_slug`. -/
def deriveSlug (model : Text) : Text := ((squeeze false (lower model)).dropWhile isHyphen).rdropWhile isHyphen

def evalProfileName (workload model : Text) : Text := "eval--".toList ++ (workload ++ '-' :: '-' :: deriveSlug model)

example : evalProfileName "translation".toList "Qwen/Qwen3 (30B)".toList = "eval--translation--qwen-qwen3-30b".toList := by
  decide

/-- No two hyphens stand together, and none in front. -/
structure Slug (s : Text) : Prop where
  single : ¬ ['-', '-'] <:+: s
  front : s.head? ≠ some '-'

theorem not_hyphen {c : Char} (h : isSlugChar c = true) : c ≠ '-' := by
  rintro rfl
  cases h

theorem squeeze_cons (behind : Bool) (c : Char) (s : Text) :
    squeeze behind (c :: s) =
      if isSlugChar c then c :: squeeze false s else if behind then squeeze true s else '-' :: squeeze true s := rfl

theorem single_cons {c : Char} {s : Text} (h : c ≠ '-') (hs : ¬ ['-', '-'] <:+: s) : ¬ ['-', '-'] <:+: c :: s := by
  rw [List.infix_cons_iff]
  rintro (hpre | hin)
  · exact h (List.cons_prefix_cons.mp hpre).1.symm
  · exact hs hin

theorem single_hyphen {s : Text} (h : Slug s) : ¬ ['-', '-'] <:+: '-' :: s := by
  rw [List.infix_cons_iff]
  rintro (hpre | hin)
  · obtain ⟨t, ht⟩ := (List.cons_prefix_cons.mp hpre).2
    exact h.front (by rw [← ht]; rfl)
  · exact h.single hin

/-- Behind a replaced character what is left is a slug; otherwise it may begin with a hyphen. -/
theorem squeeze_single (s : Text) : ¬ ['-', '-'] <:+: squeeze false s ∧ Slug (squeeze true s) := by
  induction s with
  | nil =>
    have hnil : ¬ ['-', '-'] <:+: ([] : Text) := fun h => absurd (List.eq_nil_of_infix_nil h) (List.cons_ne_nil _ _)
    exact ⟨hnil, hnil, by rintro ⟨⟩⟩
  | cons c s ih =>
    obtain ⟨hfalse, htrue⟩ := ih
    rw [squeeze_cons, squeeze_cons]
    cases hc : isSlugChar c with
    | true =>
      rw [if_pos rfl, if_pos rfl]
      have hsingle := single_cons (not_hyphen hc) hfalse
      refine ⟨hsingle, hsingle, ?_⟩
      intro hhead
      exact not_hyphen hc (Option.some.inj hhead)
    | false =>
      simp only [Bool.false_eq_true, if_false, if_true]
      exact ⟨single_hyphen htrue, htrue⟩

theorem slug_spec (model : Text) : Slug (deriveSlug model) := by
  have hpre := List.rdropWhile_prefix isHyphen (l := (squeeze false (lower model)).dropWhile isHyphen)
  have hsuf : (squeeze false (lower model)).dropWhile isHyphen <:+ squeeze false (lower model) := List.dropWhile_suffix _
  refine ⟨fun hin => (squeeze_single (lower model)).1 (hin.trans (hpre.isInfix.trans hsuf.isInfix)), ?_⟩
  intro hhead
  obtain ⟨t, ht⟩ := hpre
  have hno := List.head?_dropWhile_not isHyphen (squeeze false (lower model))
  rw [← ht, List.head?_append] at hno
  rw [deriveSlug] at hhead
  rw [hhead] at hno
  cases hno

/-- What stands in front of a slug is told by its last two hyphens. -/
theorem slug_unique {w w' s s' : Text} (hs : Slug s) (hlong : w.length ≤ w'.length)
    (h : w ++ ('-' :: '-' :: s) = w' ++ ('-' :: '-' :: s')) : w = w' ∧ s = s' := by
  obtain ⟨x, rfl⟩ : ∃ x, w' = w ++ x :=
    (List.prefix_of_prefix_length_le ⟨_, rfl⟩ ⟨_, h.symm⟩ hlong).imp fun x hx => hx.symm
  rw [List.append_assoc, List.append_cancel_left_eq] at h
  cases x with
  | nil =>
    rw [List.nil_append] at h
    cases h
    exact ⟨(List.append_nil w).symm, rfl⟩
  | cons c x =>
    have htail : '-' :: s = x ++ '-' :: '-' :: s' := (List.cons_eq_cons.mp h).2
    cases x with
    | nil =>
      -- the slug would begin with a hyphen
      have hslug : s = '-' :: s' := (List.cons_eq_cons.mp htail).2
      exact absurd (by rw [hslug]; rfl) hs.front
    | cons d x =>
      -- the slug would have the other two hyphens in it
      have hslug : s = x ++ ['-', '-'] ++ s' := by
        rw [(List.cons_eq_cons.mp htail).2, List.append_assoc]
        rfl
      exact absurd ⟨x, s', hslug.symm⟩ hs.single

theorem evalProfileName_inj {w m w' m' : Text} (h : evalProfileName w m = evalProfileName w' m') :
    w = w' ∧ deriveSlug m = deriveSlug m' := by
  have hback : w ++ '-' :: '-' :: deriveSlug m = w' ++ '-' :: '-' :: deriveSlug m' := List.append_cancel_left h
  rcases Nat.le_total w.length w'.length with hle | hle
  · exact slug_unique (slug_spec m) hle hback
  · obtain ⟨hw, hslug⟩ := slug_unique (slug_spec m') hle hback.symm
    exact ⟨hw.symm, hslug.symm⟩

/-- Profiles have one name exactly if their workloads and the slugs of their models are the same. -/
theorem evalProfileName_eq_iff (w m w' m' : Text) :
    evalProfileName w m = evalProfileName w' m' ↔ w = w' ∧ deriveSlug m = deriveSlug m' := by
  refine ⟨evalProfileName_inj, ?_⟩
  rintro ⟨rfl, hslug⟩
  exact congrArg (fun slug => "eval--".toList ++ (w ++ '-' :: '-' :: slug)) hslug

end Errand.Evals.ProfileNames

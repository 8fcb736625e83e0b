import Mathlib.Data.List.Basic

/-
  Errand.Lib.Like — `text LIKE pattern` of SQL: `%` stands for any text, `_` for any character,
  and the character behind a backslash for itself.

  Rules:
  - `like_plain`: characters that are no signs stand for themselves.
  - `like_plain_any`: such a pattern with `%` behind it matches what it begins.
-/

namespace Errand.Lib.Like

/-- One of the ends of the text is as required. -/
def someEnd (q : List Char → Bool) : List Char → Bool
  | [] => q []
  | c :: t => q (c :: t) || someEnd q t

/-- The text has a first character as required, and a rest as required. -/
def headThen (p : Char → Bool) (q : List Char → Bool) : List Char → Bool
  | [] => false
  | c :: t => p c && q t

/-- What is left of a pattern, from behind a backslash if `escaped`; one that ends there, which is
    refused, matches nothing. -/
def likeFrom : Bool → List Char → List Char → Bool
  | false, [], t => t.isEmpty
  | true, [], _ => false
  | true, c :: p, t => headThen (· == c) (likeFrom false p) t
  | false, c :: p, t =>
    if c = '%' then someEnd (likeFrom false p) t
    else if c = '_' then headThen (fun _ => true) (likeFrom false p) t
    else if c = '\\' then likeFrom true p t
    else headThen (· == c) (likeFrom false p) t

def like (pattern text : List Char) : Bool := likeFrom false pattern text

/-- It is no sign. -/
def plain (c : Char) : Bool := c ≠ '%' && c ≠ '_' && c ≠ '\\'

theorem someEnd_cons (q : List Char → Bool) (c : Char) (t : List Char) :
    someEnd q (c :: t) = (q (c :: t) || someEnd q t) := rfl

theorem like_head (c : Char) (p t : List Char) :
    like (c :: p) t =
      if c = '%' then someEnd (like p) t
      else if c = '_' then headThen (fun _ => true) (like p) t
      else if c = '\\' then likeFrom true p t
      else headThen (· == c) (like p) t := rfl

theorem someEnd_iff {q : List Char → Bool} {t : List Char} : someEnd q t = true ↔ ∃ a b, t = a ++ b ∧ q b = true := by
  induction t with
  | nil =>
    constructor
    · intro h
      exact ⟨[], [], rfl, h⟩
    · rintro ⟨a, b, hab, hq⟩
      rw [(List.append_eq_nil_iff.mp hab.symm).2] at hq
      exact hq
  | cons c t ih =>
    rw [someEnd_cons, Bool.or_eq_true, ih]
    constructor
    · rintro (h | ⟨a, b, rfl, hq⟩)
      · exact ⟨[], c :: t, rfl, h⟩
      · exact ⟨c :: a, b, rfl, hq⟩
    · rintro ⟨a, b, hab, hq⟩
      cases a with
      | nil =>
        rw [List.nil_append] at hab
        rw [hab]
        exact .inl hq
      | cons d a => exact .inr ⟨a, b, (List.cons.inj hab).2, hq⟩

theorem like_any (p t : List Char) : like ('%' :: p) t = someEnd (like p) t := by
  rw [like_head, if_pos rfl]

theorem like_cons {c : Char} (h : plain c = true) (p t : List Char) : like (c :: p) t = headThen (· == c) (like p) t := by
  simp only [plain, Bool.and_eq_true, decide_eq_true_eq] at h
  rw [like_head, if_neg h.1.1, if_neg h.1.2, if_neg h.2]

/-- Characters that are no signs stand for themselves. -/
theorem like_plain {n : List Char} (h : ∀ c ∈ n, plain c = true) {p t : List Char} :
    like (n ++ p) t = true ↔ ∃ b, t = n ++ b ∧ like p b = true := by
  induction n generalizing t with
  | nil => simp
  | cons c n ih =>
    rw [List.cons_append, like_cons (h c (List.mem_cons_self ..))]
    cases t with
    | nil => simp [headThen]
    | cons d t =>
      simp [headThen, ih fun d hd => h d (List.mem_cons_of_mem _ hd), and_assoc]

theorem like_plain_any {n : List Char} (h : ∀ c ∈ n, plain c = true) {t : List Char} :
    like (n ++ ['%']) t = true ↔ n <+: t := by
  rw [like_plain h]
  constructor
  · rintro ⟨b, rfl, -⟩
    exact List.prefix_append ..
  · rintro ⟨b, rfl⟩
    refine ⟨b, rfl, ?_⟩
    rw [like_any, someEnd_iff]
    exact ⟨b, [], (List.append_nil b).symm, rfl⟩

end Errand.Lib.Like

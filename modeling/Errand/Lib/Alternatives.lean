import Errand.Lib.PyStr

/-
  Errand.Lib.Alternatives — patterns of named fields, as `strptime` makes them of a format.

  A field takes one of some alternatives, each a sequence of character classes. A match tries
  the alternatives in their order, and of white space the longest run first, and takes the
  first way through; it need not take the whole text.

  Rules:
  - `matchAt_field`: of a run of one class, with something behind it that what follows the
    field does not skip to, the field takes the whole run or there is no match.
  - `matchAt_char`, `matchAt_space`: a character, and one blank, that is there.
  - `matchAt_miss_char`, `matchAt_miss_space`: one that is not.
  - `matchAt_first`: the first alternative that fits is taken by a field at the end.
  - `matchAt_left`: a field at the end leaves what is behind a run of its class.
-/

namespace Errand.Lib.Alternatives

open PyStr

abbrev Text := List Char

inductive Item where
  | char (p : Char → Bool)
  | field (name : Char) (alternatives : List (List (Char → Bool)))
  | spaces

abbrev Pattern := List Item

/-- The text begins with characters of the classes. -/
def fits : List (Char → Bool) → Text → Bool
  | [], _ => true
  | _ :: _, [] => false
  | p :: ps, c :: s => p c && fits ps s

/-- The fields with what they take, and what is left. -/
def matchAt : Pattern → Text → Option (List (Char × Text) × Text)
  | [], s => some ([], s)
  | .char _ :: _, [] => none
  | .char p :: items, c :: s => if p c then matchAt items s else none
  | .field name alternatives :: items, s =>
    alternatives.findSome? fun alt =>
      if fits alt s then (matchAt items (s.drop alt.length)).map fun r => ((name, s.take alt.length) :: r.1, r.2)
      else none
  | .spaces :: items, s =>
    (List.range (s.takeWhile isSpace).length).reverse.findSome? fun n => matchAt items (s.drop (n + 1))

/-! ## What fits -/

theorem fits_cons (p : Char → Bool) (ps : List (Char → Bool)) (c : Char) (s : Text) :
    fits (p :: ps) (c :: s) = (p c && fits ps s) := rfl

theorem matchAt_alternatives (name : Char) (alternatives : List (List (Char → Bool))) (items : Pattern) (s : Text) :
    matchAt (.field name alternatives :: items) s =
      alternatives.findSome? fun alt =>
        if fits alt s then (matchAt items (s.drop alt.length)).map fun r => ((name, s.take alt.length) :: r.1, r.2)
        else none := rfl

theorem matchAt_blanks (items : Pattern) (s : Text) :
    matchAt (.spaces :: items) s =
      (List.range (s.takeWhile isSpace).length).reverse.findSome? fun n => matchAt items (s.drop (n + 1)) := rfl

theorem fits_append {alt : List (Char → Bool)} {s : Text} (h : fits alt s = true) (t : Text) :
    fits alt (s ++ t) = true := by
  induction alt generalizing s with
  | nil => rfl
  | cons p alt ih =>
    cases s with
    | nil => cases h
    | cons c s =>
      rw [fits_cons, Bool.and_eq_true] at h
      rw [List.cons_append, fits_cons, h.1, ih h.2]
      rfl

theorem fits_take {alt : List (Char → Bool)} {s : Text} (h : fits alt s = true) :
    alt.length ≤ s.length ∧ fits alt (s.take alt.length) = true := by
  induction alt generalizing s with
  | nil => exact ⟨Nat.zero_le _, rfl⟩
  | cons p alt ih =>
    cases s with
    | nil => cases h
    | cons c s =>
      rw [fits_cons, Bool.and_eq_true] at h
      obtain ⟨hlen, htake⟩ := ih h.2
      refine ⟨Nat.succ_le_succ hlen, ?_⟩
      rw [List.length_cons, List.take_succ_cons, fits_cons, h.1, htake]
      rfl

theorem fits_replicate {p : Char → Bool} {s : Text} (h : ∀ c ∈ s, p c = true) :
    fits (List.replicate s.length p) s = true := by
  induction s with
  | nil => rfl
  | cons c s ih =>
    rw [List.length_cons, List.replicate_succ, fits_cons, h c List.mem_cons_self,
      ih fun d hd => h d (List.mem_cons_of_mem _ hd)]
    rfl

/-- Of every text that begins with a character of the class, the alternatives take no other. -/
def Within (p : Char → Bool) (alternatives : List (List (Char → Bool))) : Prop :=
  ∀ alt ∈ alternatives, ∀ c s, p c = true → fits alt (c :: s) = true → ∀ d ∈ (c :: s).take alt.length, p d = true

/-- The same where every class is part of it, or the first excludes it. -/
theorem within_of {p : Char → Bool} {alternatives : List (List (Char → Bool))}
    (h : ∀ alt ∈ alternatives, (∀ q ∈ alt, ∀ c, q c = true → p c = true) ∨
      ∃ q rest, alt = q :: rest ∧ ∀ c, p c = true → q c = false) : Within p alternatives := by
  have hall : ∀ (alt : List (Char → Bool)) (s : Text), (∀ q ∈ alt, ∀ c, q c = true → p c = true) →
      fits alt s = true → ∀ d ∈ s.take alt.length, p d = true := by
    intro alt
    induction alt with
    | nil => exact fun s _ _ d hd => absurd hd List.not_mem_nil
    | cons q alt ih =>
      intro s hq hfits d hd
      cases s with
      | nil => cases hfits
      | cons c s =>
        rw [fits_cons, Bool.and_eq_true] at hfits
        rw [List.length_cons, List.take_succ_cons] at hd
        rcases List.mem_cons.mp hd with rfl | hd
        · exact hq q List.mem_cons_self _ hfits.1
        · exact ih s (fun q hmem => hq q (List.mem_cons_of_mem _ hmem)) hfits.2 d hd
  intro alt halt c s hc hfits
  rcases h alt halt with hclasses | ⟨q, rest, rfl, hfirst⟩
  · exact hall alt (c :: s) hclasses hfits
  · rw [fits_cons, hfirst c hc] at hfits
    cases hfits

/-! ## A match -/

/-- A search that finds one value or none. -/
theorem findSome?_const {α β : Type} {q : α → Bool} {x : Option β} {f : α → Option β} {l : List α}
    (h : ∀ a ∈ l, f a = if q a then x else none) : l.findSome? f = if l.any q then x else none := by
  induction l with
  | nil => rfl
  | cons a l ih =>
    rw [List.findSome?_cons, h a List.mem_cons_self, ih fun b hb => h b (List.mem_cons_of_mem _ hb), List.any_cons]
    cases q a with
    | false => rfl
    | true =>
      cases x with
      | none => exact ite_self none
      | some b => rfl

theorem matchAt_char {p : Char → Bool} {c : Char} (h : p c = true) (items : Pattern) (s : Text) :
    matchAt (.char p :: items) (c :: s) = matchAt items s := if_pos h

theorem matchAt_miss_char {p : Char → Bool} {c : Char} (h : p c = false) (items : Pattern) (s : Text) :
    matchAt (.char p :: items) (c :: s) = none := if_neg (by rw [h]; exact Bool.false_ne_true)

theorem matchAt_miss_space {c : Char} (h : isSpace c = false) (items : Pattern) (s : Text) :
    matchAt (.spaces :: items) (c :: s) = none := by
  rw [matchAt_blanks, List.takeWhile_cons_of_neg (by rw [h]; exact Bool.false_ne_true)]
  rfl

theorem matchAt_space {c : Char} (h : isSpace c = false) (items : Pattern) (s : Text) :
    matchAt (.spaces :: items) (' ' :: c :: s) = matchAt items (c :: s) := by
  rw [matchAt_blanks, List.takeWhile_cons_of_pos (by decide), List.takeWhile_cons_of_neg (by rw [h]; exact Bool.false_ne_true)]
  show [0].findSome? (fun n => matchAt items ((' ' :: c :: s).drop (n + 1))) = _
  rw [List.findSome?_singleton]
  rfl

section Field

variable {p : Char → Bool} {name : Char} {alternatives : List (List (Char → Bool))} {items : Pattern}

/-- A run that a field takes is taken whole where what follows does not begin with its class. -/
theorem matchAt_field (hwithin : Within p alternatives) (hitems : ∀ d s, p d = true → matchAt items (d :: s) = none)
    {ds : Text} (hne : ds ≠ []) (hds : ∀ d ∈ ds, p d = true) {c : Char} (hc : p c = false) (rest : Text) :
    matchAt (.field name alternatives :: items) (ds ++ c :: rest) =
      if alternatives.any fun alt => alt.length == ds.length && fits alt ds then
        (matchAt items (c :: rest)).map fun r => ((name, ds) :: r.1, r.2)
      else none := by
  obtain ⟨first, others, rfl⟩ := List.exists_cons_of_ne_nil hne
  rw [matchAt_alternatives]
  refine findSome?_const fun alt halt => ?_
  by_cases hfits : fits alt (first :: others ++ c :: rest) = true
  · rw [if_pos hfits]
    have htaken := hwithin alt halt first (others ++ c :: rest) (hds first List.mem_cons_self) hfits
    obtain ⟨-, htake⟩ := fits_take hfits
    have hle : alt.length ≤ (first :: others).length := by
      by_contra hlong
      have hmem : c ∈ (first :: (others ++ c :: rest)).take alt.length := by
        rw [← List.cons_append, List.take_append]
        refine List.mem_append_right _ ?_
        obtain ⟨n, hn⟩ : ∃ n, alt.length - (first :: others).length = n + 1 := ⟨_, (Nat.succ_pred (by omega)).symm⟩
        rw [hn, List.take_succ_cons]
        exact List.mem_cons_self
      rw [htaken c hmem] at hc
      cases hc
    by_cases hlen : alt.length = (first :: others).length
    · rw [hlen, List.take_left] at htake
      rw [hlen, List.drop_left, List.take_left, beq_self_eq_true, htake]
      rfl
    · obtain ⟨d, tail, hdrop⟩ : ∃ d tail, (first :: others).drop alt.length = d :: tail :=
        List.exists_cons_of_ne_nil (by rw [Ne, List.drop_eq_nil_iff]; omega)
      have hd : p d = true := hds d (List.mem_of_mem_drop (hdrop ▸ List.mem_cons_self))
      have hleft : (first :: others ++ c :: rest).drop alt.length = d :: (tail ++ c :: rest) := by
        rw [List.drop_append_of_le_length hle, hdrop]
        rfl
      rw [hleft, hitems d _ hd, beq_eq_false_iff_ne.mpr hlen]
      rfl
  · rw [if_neg hfits, if_neg]
    rw [Bool.and_eq_true]
    exact fun h => hfits (fits_append h.2 _)

/-- Of alternatives in front that do not fit, the next is taken. -/
theorem matchAt_first {before after : List (List (Char → Bool))} {alt : List (Char → Bool)} {s : Text}
    (hbefore : ∀ other ∈ before, fits other s = false) (h : fits alt s = true) :
    matchAt [.field name (before ++ alt :: after)] s = some ([(name, s.take alt.length)], s.drop alt.length) := by
  rw [matchAt_alternatives, List.findSome?_append]
  have hnone : (before.findSome? fun other =>
      if fits other s then (matchAt [] (s.drop other.length)).map fun r =>
        ((name, s.take other.length) :: r.1, r.2) else none) = none := by
    rw [List.findSome?_eq_none_iff]
    intro other hother
    rw [hbefore other hother]
    rfl
  rw [hnone, Option.none_or, List.findSome?_cons, if_pos h]
  rfl

theorem matchAt_left (hwithin : Within p alternatives) {ds : Text} (hne : ds ≠ []) (hds : ∀ d ∈ ds, p d = true)
    {c : Char} (hc : p c = false) (rest : Text) {r : List (Char × Text) × Text}
    (h : matchAt [.field name alternatives] (ds ++ c :: rest) = some r) : r.2 ≠ [] := by
  obtain ⟨first, others, rfl⟩ := List.exists_cons_of_ne_nil hne
  rw [matchAt_alternatives] at h
  obtain ⟨alt, halt, h⟩ := List.exists_of_findSome?_eq_some h
  split at h
  · rename_i hfits
    have htaken := hwithin alt halt first (others ++ c :: rest) (hds first List.mem_cons_self) hfits
    cases h
    intro hdrop
    have hdrop : (first :: (others ++ c :: rest)).drop alt.length = [] := hdrop
    rw [List.take_of_length_le (List.drop_eq_nil_iff.mp hdrop)] at htaken
    rw [htaken c (List.mem_cons_of_mem _ (List.mem_append_right _ List.mem_cons_self))] at hc
    cases hc
  · cases h

end Field

end Errand.Lib.Alternatives

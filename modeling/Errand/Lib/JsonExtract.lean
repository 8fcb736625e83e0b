import Errand.Lib.PyStr
import Errand.Lib.Search

/-
  Errand.Lib.JsonExtract — looking for an object in a text a model wrote.

  Three places are tried: the whole text, what stands in the first Markdown fence (a search
  for "```(?:json)?\s*\n(.*?)\n\s*```", the dot matching line breaks), and what stands
  between the first opening and the last closing brace.

  Rules:
  - `fenced_break`: a fence closes after a line break.
  - `braced_spec`: what stands between braces begins and ends with one, and has no closing
    brace behind it.
-/

namespace Errand.Lib.JsonExtract

open PyStr

def fence : List Char := "```".toList

/-- The shortest content that a line break, white space and a fence follow. -/
def closeFence : List Char → Option (List Char)
  | [] => none
  | c :: s =>
    if c = '\n' ∧ fence.isPrefixOf (s.dropWhile isSpace) = true then some []
    else (closeFence s).map (c :: ·)

/-- The content behind white space with a line break in it; the last break comes first. -/
def fenceBody : List Char → Option (List Char)
  | [] => none
  | c :: s =>
    if isSpace c then
      match fenceBody s with
      | some content => some content
      | none => if c = '\n' then closeFence s else none
    else none

def fenceContent (s : List Char) : Option (List Char) :=
  match ("json".toList.isPrefixOf? s).bind fenceBody with
  | some content => some content
  | none => fenceBody s

def fenced : List Char → Option (List Char)
  | [] => none
  | c :: s =>
    match (fence.isPrefixOf? (c :: s)).bind fenceContent with
    | some content => some content
    | none => fenced s

/-- From the first opening brace to the last closing one. -/
def braced (s : List Char) : Option (List Char) :=
  let t := ((s.dropWhile (· ≠ '\x7b')).reverse.dropWhile (· ≠ '\x7d')).reverse
  if t.isEmpty then none else some t

def candidates (text : List Char) : List (List Char) :=
  strip text :: ((fenced (strip text)).map strip).toList ++ (braced (strip text)).toList

def extract {α : Type} (accept : List Char → Option α) (text : List Char) : Option α :=
  (candidates text).findSome? accept

theorem mem_candidates {text c : List Char} (hf : fenced (strip text) = none) :
    c ∈ candidates text ↔ c = strip text ∨ braced (strip text) = some c := by
  rw [candidates, hf]
  simp

example : fenced "a\n```json\n[1]\n\n```".toList = some "[1]".toList := by decide

/-! ## Fences -/

theorem closeFence_break {s content : List Char} (h : closeFence s = some content) :
    ∃ a b, s = a ++ '\n' :: b ∧ '`' ∈ b := by
  induction s generalizing content with
  | nil => cases h
  | cons c s ih =>
    unfold closeFence at h
    split at h
    · rename_i hc
      obtain ⟨rfl, hfence⟩ := hc
      obtain ⟨rest, hrest⟩ := List.isPrefixOf_iff_prefix.mp hfence
      refine ⟨[], s, rfl, (List.dropWhile_suffix isSpace).subset ?_⟩
      rw [← hrest]
      simp [fence]
    · obtain ⟨content', hs, -⟩ := Option.map_eq_some_iff.mp h
      obtain ⟨a, b, rfl, hb⟩ := ih hs
      exact ⟨c :: a, b, rfl, hb⟩

theorem fenceBody_break {s content : List Char} (h : fenceBody s = some content) :
    ∃ a b, s = a ++ '\n' :: b ∧ '`' ∈ b := by
  induction s generalizing content with
  | nil => cases h
  | cons c s ih =>
    have behind : ∀ {content}, (fenceBody s = some content ∨ closeFence s = some content) →
        ∃ a b, c :: s = a ++ '\n' :: b ∧ '`' ∈ b := by
      intro content hs
      obtain ⟨a, b, rfl, hb⟩ : ∃ a b, s = a ++ '\n' :: b ∧ '`' ∈ b := hs.elim ih closeFence_break
      exact ⟨c :: a, b, rfl, hb⟩
    unfold fenceBody at h
    split at h
    · split at h
      · rename_i hbody
        exact behind (.inl hbody)
      · split at h
        · exact behind (.inr h)
        · cases h
    · cases h

/-- A fence closes behind a line break. -/
theorem fenced_break {s content : List Char} (h : fenced s = some content) : ∃ a b, s = a ++ '\n' :: b ∧ '`' ∈ b := by
  have body : ∀ {t r content : List Char}, t.isPrefixOf? r = some content → ∀ {c}, fenceBody content = some c →
      ∃ a b, r = a ++ '\n' :: b ∧ '`' ∈ b := by
    intro t r content hr c hc
    obtain ⟨a, b, rfl, hb⟩ := fenceBody_break hc
    rw [Search.isPrefixOf?_some hr]
    exact ⟨t ++ a, b, by simp, hb⟩
  induction s generalizing content with
  | nil => cases h
  | cons c s ih =>
    unfold fenced at h
    split at h
    · rename_i hfence
      obtain ⟨rest, hrest, hcontent⟩ := Option.bind_eq_some_iff.mp hfence
      rw [Search.isPrefixOf?_some hrest]
      have hbreak : ∃ a b, rest = a ++ '\n' :: b ∧ '`' ∈ b := by
        unfold fenceContent at hcontent
        split at hcontent
        · rename_i hjson
          obtain ⟨r, hr, hbody⟩ := Option.bind_eq_some_iff.mp hjson
          exact body hr hbody
        · exact fenceBody_break hcontent
      obtain ⟨a, b, rfl, hb⟩ := hbreak
      exact ⟨fence ++ a, b, by simp, hb⟩
    · obtain ⟨a, b, rfl, hb⟩ := ih h
      exact ⟨c :: a, b, rfl, hb⟩

/-! ## Braces -/

theorem braced_spec {s t : List Char} (h : braced s = some t) :
    ∃ a b, s = a ++ t ++ b ∧ '\x7d' ∉ b ∧ '\x7b' ∉ a := by
  unfold braced at h
  simp only at h
  split at h
  · cases h
  · cases h
    refine ⟨s.takeWhile (· ≠ '\x7b'), ((s.dropWhile (· ≠ '\x7b')).reverse.takeWhile (· ≠ '\x7d')).reverse, ?_, ?_, ?_⟩
    · rw [List.append_assoc, ← List.reverse_append, List.takeWhile_append_dropWhile, List.reverse_reverse,
        List.takeWhile_append_dropWhile]
    · rw [List.mem_reverse]
      intro hmem
      simpa using List.mem_takeWhile_imp hmem
    · intro hmem
      simpa using List.mem_takeWhile_imp hmem

/-- Behind an object's text with no closing brace, what stands between the braces is the
    object. -/
theorem braced_obj {s t : List Char} (hfirst : s.head? = some '\x7b') (hlast : s.getLast? = some '\x7d')
    (ht : '\x7d' ∉ t) : braced (s ++ t) = some s := by
  have hdrop : (s ++ t).dropWhile (· ≠ '\x7b') = s ++ t := by
    apply dropWhile_head
    intro c hc
    rw [List.head?_append, hfirst, Option.some_or] at hc
    cases hc
    rfl
  have hback : (s ++ t).reverse.dropWhile (· ≠ '\x7d') = s.reverse := by
    apply dropWhile_reverse
    · intro c hc
      rw [decide_eq_true_eq]
      intro heq
      subst heq
      exact ht hc
    · intro c hc
      rw [hlast] at hc
      cases hc
      rfl
  unfold braced
  simp only
  rw [hdrop, hback, List.reverse_reverse]
  cases s with
  | nil => cases hfirst
  | cons c s => rfl

end Errand.Lib.JsonExtract

import Mathlib.Data.List.Nodup

/-
  Errand.Lib.Precedence — lists of keyed entries merged so that the first entry of a key
  stands.

  `extend acc entries` puts behind `acc` the entries whose keys are not there yet. Rules:
  the first entry of a key in the result is its first in `acc ++ entries`
  (`find?_extend`), the keys stay distinct (`nodup_extend`), and where they are an entry is
  in the list exactly if it is the first of its key (`mem_iff_first`).
-/

namespace Errand.Lib.Precedence

universe u v

variable {α : Type u} {κ : Type v} [DecidableEq κ] (key : α → κ)

/-- The first entry with the key. -/
def first (entries : List α) (k : κ) : Option α := entries.find? fun a => key a = k

def add (acc : List α) (a : α) : List α := if key a ∈ acc.map key then acc else acc ++ [a]

def extend (acc entries : List α) : List α := entries.foldl (add key) acc

variable {key}

theorem first_append (xs ys : List α) (k : κ) : first key (xs ++ ys) k = (first key xs k).or (first key ys k) :=
  List.find?_append

theorem first_key {entries : List α} {k : κ} {a : α} (h : first key entries k = some a) : key a = k := by
  simpa using List.find?_some h

theorem first_mem {entries : List α} {k : κ} {a : α} (h : first key entries k = some a) : a ∈ entries :=
  List.mem_of_find?_eq_some h

theorem first_none {entries : List α} {k : κ} : first key entries k = none ↔ ∀ a ∈ entries, key a ≠ k := by
  simp [first]

/-- A key that occurs has a first entry. -/
theorem first_of_mem (key : α → κ) {entries : List α} {a : α} (h : a ∈ entries) : ∃ b, first key entries (key a) = some b := by
  rw [← Option.isSome_iff_exists, Option.isSome_iff_ne_none]
  intro hnone
  exact first_none.mp hnone a h rfl

theorem first_eq_of_before {before after : List α} {a : α} (h : ∀ b ∈ before, key b ≠ key a) :
    first key (before ++ a :: after) (key a) = some a := by
  rw [first_append, first_none.mpr h]
  simp [first]

/-- Where no two entries share a key, each is the first of its own. -/
theorem mem_iff_first {entries : List α} (h : (entries.map key).Nodup) (a : α) :
    a ∈ entries ↔ first key entries (key a) = some a := by
  constructor
  · intro ha
    obtain ⟨b, hb⟩ := first_of_mem key ha
    rw [hb]
    exact congrArg some (List.inj_on_of_nodup_map h (first_mem hb) ha (first_key hb))
  · intro ha
    exact first_mem ha

theorem first_add (acc : List α) (a : α) (k : κ) :
    first key (add key acc a) k = (first key acc k).or (first key [a] k) := by
  unfold add
  by_cases h : key a ∈ acc.map key
  · rw [if_pos h]
    by_cases hk : key a = k
    · obtain ⟨b, hb, hba⟩ := List.mem_map.mp h
      obtain ⟨c, hc⟩ := first_of_mem key hb
      rw [hba, hk] at hc
      rw [hc]
      rfl
    · rw [first_none.mpr (by simpa using hk : ∀ b ∈ [a], key b ≠ k), Option.or_none]
  · rw [if_neg h, first_append]

theorem find?_extend (acc entries : List α) (k : κ) :
    first key (extend key acc entries) k = first key (acc ++ entries) k := by
  induction entries generalizing acc with
  | nil => simp [extend]
  | cons a entries ih =>
    show first key (extend key (add key acc a) entries) k = _
    rw [ih, first_append, first_add, List.append_cons, first_append, first_append]

theorem nodup_add {acc : List α} (h : (acc.map key).Nodup) (a : α) : ((add key acc a).map key).Nodup := by
  unfold add
  by_cases ha : key a ∈ acc.map key
  · rw [if_pos ha]
    exact h
  · rw [if_neg ha, List.map_append, List.nodup_append]
    refine ⟨h, by simp, ?_⟩
    intro k hk j hj heq
    rw [List.map_singleton, List.mem_singleton] at hj
    rw [heq, hj] at hk
    exact ha hk

theorem nodup_extend {acc : List α} (h : (acc.map key).Nodup) (entries : List α) :
    ((extend key acc entries).map key).Nodup := by
  induction entries generalizing acc with
  | nil => exact h
  | cons a entries ih => exact ih (nodup_add h a)

/-- What a merge holds: the first entry of each key. -/
theorem mem_extend {acc : List α} (h : (acc.map key).Nodup) (entries : List α) (a : α) :
    a ∈ extend key acc entries ↔ first key (acc ++ entries) (key a) = some a := by
  rw [mem_iff_first (nodup_extend h entries), find?_extend]

/-- Of lists in a row, the middle one replaced: what stood first in the row stands first
    after it exactly if what of the old middle came first is first in the new one too, and
    nothing of the new one comes before what follows. -/
theorem replaced_iff {a p l r : List α} {q : α → Prop} (hp : ∀ x ∈ p, x ∉ r) (hl : ∀ x ∈ l, x ∉ r) :
    (∀ s, q s → first key (a ++ (p ++ r)) (key s) = some s → first key (a ++ (l ++ r)) (key s) = some s) ↔
      (∀ s ∈ p, q s → (∀ x ∈ a, key x ≠ key s) → first key p (key s) = some s → first key l (key s) = some s) ∧
        ∀ s ∈ r, q s → (∀ x ∈ a, key x ≠ key s) → (∀ x ∈ p, key x ≠ key s) → first key r (key s) = some s →
          ∀ x ∈ l, key x ≠ key s := by
  simp only [first_append]
  constructor
  · intro h
    refine ⟨fun s hs hq ha hfirst => ?_, fun s hs hq ha hnone hfirst => ?_⟩
    · have hnew := h s hq
      rw [first_none.mpr ha, hfirst] at hnew
      replace hnew := hnew rfl
      rw [Option.none_or] at hnew
      rcases Option.or_eq_some_iff.mp hnew with hleft | ⟨-, hright⟩
      · exact hleft
      · exact absurd (first_mem hright) (hp s hs)
    · have hnew := h s hq
      rw [first_none.mpr ha, first_none.mpr hnone, hfirst] at hnew
      replace hnew := hnew rfl
      rw [Option.none_or] at hnew
      rcases Option.or_eq_some_iff.mp hnew with hleft | ⟨hleft, -⟩
      · exact absurd hs (hl s (first_mem hleft))
      · exact first_none.mp hleft
  · rintro ⟨hbehind, hbelow⟩ s hq hfirst
    rcases Option.or_eq_some_iff.mp hfirst with ha | ⟨ha, hfirst⟩
    · rw [ha]
      rfl
    · have hfree := first_none.mp ha
      rw [ha, Option.none_or]
      rcases Option.or_eq_some_iff.mp hfirst with hmiddle | ⟨hmiddle, hright⟩
      · rw [hbehind s (first_mem hmiddle) hq hfree hmiddle]
        rfl
      · rw [first_none.mpr (hbelow s (first_mem hright) hq hfree (first_none.mp hmiddle) hright), Option.none_or]
        exact hright

end Errand.Lib.Precedence

import Mathlib.Data.List.Perm.Basic
import Mathlib.Data.Prod.Lex

/-
  Errand.Lib.Places — items in order of an integer place, and of a stamp where places are
  equal, when one of them is moved.

  Moving an item from `old` to `new` shifts the items between the two by one, over the place
  it leaves. Other items at `old` stay where they are, so those next to it, on the side the
  item moves to, come to share that place with them.

  Rules:
  - `shifted_mono`, `shifted_ne`: the shift keeps the order of places and leaves `new` free.
  - `shifted_eq_iff`: two places become one exactly if they `Meet`.
  - `lt_shifted_iff`: the order of two items is kept exactly if, where they meet, their
    stamps are in the order their places were.
  - `listing_eq`: items that keep their order, and no two of which are level, are listed as
    before.
-/

namespace Errand.Lib.Places

variable {old new p q : Int}

/-- Where the items at `p` stand after the move. -/
def shifted (old new p : Int) : Int :=
  if new < old then
    if new ≤ p ∧ p < old then p + 1 else p
  else if old < p ∧ p ≤ new then p - 1
  else p

/-- The place beside `old` whose items are shifted onto it, and `old`, in their order. -/
def Meet (old new p q : Int) : Prop :=
  (new < old ∧ p = old - 1 ∧ q = old) ∨ (old < new ∧ p = old ∧ q = old + 1)

instance : Decidable (Meet old new p q) := inferInstanceAs (Decidable (_ ∨ _))

theorem shifted_up (h : new < old) : shifted old new p = if new ≤ p ∧ p < old then p + 1 else p := if_pos h

theorem shifted_down (h : ¬ new < old) : shifted old new p = if old < p ∧ p ≤ new then p - 1 else p := if_neg h

/-- An item that stays where it is moves no other. -/
theorem shifted_same (old p : Int) : shifted old old p = p := by
  rw [shifted_down (lt_irrefl old), if_neg (by omega)]

theorem shifted_ne (h : new ≠ old) (p : Int) : shifted old new p ≠ new := by
  by_cases hup : new < old
  · rw [shifted_up hup]
    split <;> omega
  · rw [shifted_down hup]
    split <;> omega

theorem shifted_mono (h : p ≤ q) : shifted old new p ≤ shifted old new q := by
  by_cases hup : new < old
  · rw [shifted_up hup, shifted_up hup]
    split <;> split <;> omega
  · rw [shifted_down hup, shifted_down hup]
    split <;> split <;> omega

theorem shifted_eq_iff (h : p < q) : shifted old new p = shifted old new q ↔ Meet old new p q := by
  unfold Meet
  by_cases hup : new < old
  · rw [shifted_up hup, shifted_up hup]
    split <;> split <;> omega
  · rw [shifted_down hup, shifted_down hup]
    split <;> split <;> omega

theorem Meet.lt (h : Meet old new p q) : p < q := by
  rcases h with ⟨-, rfl, rfl⟩ | ⟨-, rfl, rfl⟩ <;> omega

/-- Places that differ and neither of which is `old` stay different. -/
theorem shifted_inj (hp : p ≠ old) (hq : q ≠ old) (h : shifted old new p = shifted old new q) : p = q := by
  rcases lt_trichotomy p q with hlt | heq | hgt
  · rcases (shifted_eq_iff hlt).mp h with ⟨-, -, hq'⟩ | ⟨-, hp', -⟩
    · exact absurd hq' hq
    · exact absurd hp' hp
  · exact heq
  · rcases (shifted_eq_iff hgt).mp h.symm with ⟨-, -, hp'⟩ | ⟨-, hq', -⟩
    · exact absurd hp' hp
    · exact absurd hq' hq

/-! ## The order of two items -/

variable {β : Type*} [LinearOrder β] {s t : β}

/-- An item that was before another is still, if where they meet its stamp is the lesser. -/
theorem lt_shifted_iff_of_lt (h : p < q) :
    toLex (shifted old new p, s) < toLex (shifted old new q, t) ↔ (Meet old new p q → s < t) := by
  rw [Prod.Lex.toLex_lt_toLex]
  by_cases hmeet : Meet old new p q
  · have heq := (shifted_eq_iff h).mpr hmeet
    simp [heq, hmeet]
  · have hne : shifted old new p ≠ shifted old new q := fun heq => hmeet ((shifted_eq_iff h).mp heq)
    have hlt : shifted old new p < shifted old new q := lt_of_le_of_ne (shifted_mono h.le) hne
    simp [hlt, hmeet]

theorem lt_shifted_iff :
    (toLex (p, s) < toLex (q, t) ↔ toLex (shifted old new p, s) < toLex (shifted old new q, t)) ↔
      (Meet old new p q → s < t) ∧ (Meet old new q p → ¬ s < t) := by
  rcases lt_trichotomy p q with hlt | rfl | hgt
  · have hbefore : toLex (p, s) < toLex (q, t) := Prod.Lex.toLex_lt_toLex.mpr (.inl hlt)
    have hnot : ¬ Meet old new q p := fun hmeet => absurd hmeet.lt hlt.not_gt
    rw [lt_shifted_iff_of_lt hlt]
    simp [hbefore, hnot]
  · have hnot : ¬ Meet old new p p := fun hmeet => lt_irrefl p hmeet.lt
    simp [Prod.Lex.toLex_lt_toLex, hnot]
  · have hbefore : ¬ toLex (p, s) < toLex (q, t) := by
      rw [Prod.Lex.toLex_lt_toLex]
      rintro (h | ⟨h, -⟩)
      · exact absurd h hgt.not_gt
      · exact absurd h hgt.ne'
    have hnot : ¬ Meet old new p q := fun hmeet => absurd hmeet.lt hgt.not_gt
    have hafter : toLex (shifted old new p, s) < toLex (shifted old new q, t) ↔ Meet old new q p ∧ s < t := by
      rw [Prod.Lex.toLex_lt_toLex]
      have hle := @shifted_mono old new _ _ hgt.le
      rw [eq_comm, shifted_eq_iff hgt]
      simp [hle.not_gt]
    rw [hafter]
    simp [hbefore, hnot]

/-! ## Listings -/

/-- Two listings of the same items, under ranks that order them alike and distinguish them. -/
theorem listing_eq {α γ : Type*} [LinearOrder γ] {rank rank' : α → γ} {l l' : List α} (hperm : l.Perm l')
    (hsorted : l.Pairwise fun a b => rank a ≤ rank b) (hsorted' : l'.Pairwise fun a b => rank' a ≤ rank' b)
    (hkept : ∀ a ∈ l, ∀ b ∈ l, rank a < rank b ↔ rank' a < rank' b)
    (hlevel : ∀ a ∈ l, ∀ b ∈ l, rank a = rank b → a = b) : l = l' := by
  have hback : l'.Pairwise fun a b => rank a ≤ rank b := by
    refine hsorted'.imp_of_mem ?_
    intro a b ha hb hab
    have := hkept b (hperm.mem_iff.mpr hb) a (hperm.mem_iff.mpr ha)
    exact not_lt.mp fun hlt => absurd (this.mp hlt) hab.not_gt
  refine List.Perm.eq_of_pairwise ?_ hsorted hback hperm
  intro a b ha hb hab hba
  exact hlevel a ha b (hperm.mem_iff.mpr hb) (le_antisymm hab hba)

end Errand.Lib.Places

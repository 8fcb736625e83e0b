import Mathlib.Data.List.Nodup
import Mathlib.Data.List.Perm.Subperm
import Mathlib.Order.Basic
import Mathlib.Order.Lattice

/-
  Errand.Lib.Numbered — elements that are known by their place in an ordered list.

  The list is strictly increasing; elements leave it, and greater ones join it at the end, so
  a place stands for one element only as long as nothing before it leaves.

  Rules:
  - `getElem?_iff`: an element's place is the number of those that are less.
  - `mem_take_iff`: the elements up to a place are those up to the element in it.
  - `getElem?_eq_iff_subset`: where a list has no new elements up to `m`, `m` is at its old
    place exactly if nothing up to it has left.
-/

namespace Errand.Lib.Numbered

/-- A part of a list without duplicates that is as long is all of it. -/
theorem subset_of_length {α : Type*} {a b : List α} (ha : a.Nodup) (hab : a ⊆ b) (hlen : b.length ≤ a.length) :
    b ⊆ a :=
  ((ha.subperm hab).perm_of_length_le hlen).symm.subset

variable {α : Type*} [LinearOrder α]

theorem getElem?_iff {v : List α} (hv : v.Pairwise (· < ·)) {i : Nat} {m : α} :
    v[i]? = some m ↔ m ∈ v ∧ v.countP (fun x => x < m) = i := by
  induction v generalizing i with
  | nil => simp
  | cons x v ih =>
    obtain ⟨hx, hv⟩ := List.pairwise_cons.mp hv
    have hnone : v.countP (fun y => y < x) = 0 := by
      rw [List.countP_eq_zero]
      intro y hy
      simpa using (hx y hy).le
    rw [List.countP_cons, List.mem_cons]
    cases i with
    | zero =>
      constructor
      · intro h
        cases Option.some.inj h
        exact ⟨.inl rfl, by simp [hnone]⟩
      · rintro ⟨rfl | hm, hcount⟩
        · rfl
        · rw [if_pos (by simpa using hx m hm)] at hcount
          omega
    | succ i =>
      rw [List.getElem?_cons_succ, ih hv]
      constructor
      · rintro ⟨hm, hcount⟩
        exact ⟨.inr hm, by rw [if_pos (by simpa using hx m hm), hcount]⟩
      · rintro ⟨rfl | hm, hcount⟩
        · simp [hnone] at hcount
        · rw [if_pos (by simpa using hx m hm)] at hcount
          exact ⟨hm, by omega⟩

theorem nodup {v : List α} (hv : v.Pairwise (· < ·)) : v.Nodup := hv.imp fun h => ne_of_lt h

/-- The first elements of the list, up to the one in a place. -/
theorem mem_take_iff {v : List α} (hv : v.Pairwise (· < ·)) {i : Nat} {m x : α} (hm : v[i]? = some m) :
    x ∈ v.take (i + 1) ↔ x ∈ v ∧ x ≤ m := by
  induction v generalizing i with
  | nil => cases hm
  | cons y v ih =>
    obtain ⟨hy, hv⟩ := List.pairwise_cons.mp hv
    cases i with
    | zero =>
      cases Option.some.inj hm
      rw [List.take_succ_cons, List.take_zero, List.mem_singleton, List.mem_cons]
      constructor
      · rintro rfl
        exact ⟨.inl rfl, le_refl x⟩
      · rintro ⟨hx | hx, hle⟩
        · exact hx
        · exact absurd (hy x hx) (not_lt_of_ge hle)
    | succ i =>
      rw [List.getElem?_cons_succ] at hm
      rw [List.take_succ_cons, List.mem_cons, List.mem_cons, ih hv hm]
      constructor
      · rintro (rfl | ⟨hx, hle⟩)
        · exact ⟨.inl rfl, (hy m (List.mem_of_getElem? hm)).le⟩
        · exact ⟨.inr hx, hle⟩
      · rintro ⟨hx | hx, hle⟩
        · exact .inl hx
        · exact .inr ⟨hx, hle⟩

/-- The part of a list below `m`. -/
def below (m : α) (v : List α) : List α := v.filter fun x => x < m

theorem mem_below {m x : α} {v : List α} : x ∈ below m v ↔ x ∈ v ∧ x < m := by simp [below]

theorem getElem?_eq_iff_subset {v b : List α} (hv : v.Pairwise (· < ·)) (hb : b.Pairwise (· < ·)) {i : Nat} {m : α}
    (hm : b[i]? = some m) (hlast : ∀ x ∈ b, x ≤ m) (hold : ∀ x ∈ v, x ≤ m → x ∈ b) : v[i]? = some m ↔ b ⊆ v := by
  obtain ⟨hmb, hcount⟩ := (getElem?_iff hb).mp hm
  have hsub : below m v ⊆ below m b := fun x hx => by
    obtain ⟨hxv, hxm⟩ := mem_below.mp hx
    exact mem_below.mpr ⟨hold x hxv hxm.le, hxm⟩
  rw [List.countP_eq_length_filter] at hcount
  rw [getElem?_iff hv, List.countP_eq_length_filter, ← hcount]
  constructor
  · rintro ⟨hmv, hlen⟩ x hx
    rcases (hlast x hx).eq_or_lt with rfl | hlt
    · exact hmv
    · have hback := subset_of_length ((nodup hv).filter _) hsub (Nat.le_of_eq hlen.symm)
      exact (mem_below.mp (hback (mem_below.mpr ⟨hx, hlt⟩))).1
  · intro hbv
    have hback : below m b ⊆ below m v := fun x hx => by
      obtain ⟨hxb, hxm⟩ := mem_below.mp hx
      exact mem_below.mpr ⟨hbv hxb, hxm⟩
    refine ⟨hbv hmb, Nat.le_antisymm ?_ ?_⟩
    · exact (((nodup hv).filter _).subperm hsub).length_le
    · exact (((nodup hb).filter _).subperm hback).length_le

end Errand.Lib.Numbered

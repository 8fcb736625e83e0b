import Mathlib.Data.List.Basic

/-
  Errand.Lib.Slots — lists that grow at their end and are changed in place: what is read at
  a position after one more item was appended (`append_cases`, `append_old`), after the
  item at some position was changed (`get_modify`, `get_modify_self`), and after it was
  replaced (`get_set_cases`, `get_set_self`).
-/

namespace Errand.Lib.Slots

universe u

variable {α : Type u}

theorem append_cases {items : List α} {i : Nat} {a b : α} (h : (items ++ [b])[i]? = some a) :
    items[i]? = some a ∨ (i = items.length ∧ a = b) := by
  rw [List.getElem?_append] at h
  split at h
  · exact .inl h
  · rename_i hlen
    obtain ⟨hi, -⟩ := List.getElem?_eq_some_iff.mp h
    have hi : i - items.length < 1 := hi
    exact .inr ⟨by omega, List.mem_singleton.mp (List.mem_of_getElem? h)⟩

theorem append_old {items : List α} {i : Nat} {a : α} (b : α) (h : items[i]? = some a) :
    (items ++ [b])[i]? = some a := by
  rw [List.getElem?_append_left (List.getElem?_eq_some_iff.mp h).1, h]

theorem get_modify {items : List α} {i j : Nat} {f : α → α} {b : α} (h : (items.modify i f)[j]? = some b) :
    ∃ a, items[j]? = some a ∧ b = if i = j then f a else a := by
  rw [List.getElem?_modify] at h
  obtain ⟨a, ha, rfl⟩ := Option.map_eq_some_iff.mp h
  exact ⟨a, ha, rfl⟩

theorem get_modify_self {items : List α} {i : Nat} {f : α → α} {a : α} (h : items[i]? = some a) :
    (items.modify i f)[i]? = some (f a) := by
  rw [List.getElem?_modify_eq, h]
  rfl

theorem get_set_cases {items : List α} {i j : Nat} {a b : α} (h : (items.set i a)[j]? = some b) :
    (j = i ∧ b = a) ∨ (j ≠ i ∧ items[j]? = some b) := by
  by_cases hji : j = i
  · subst hji
    rw [List.getElem?_set_self'] at h
    obtain ⟨_, -, rfl⟩ := Option.map_eq_some_iff.mp h
    exact .inl ⟨rfl, rfl⟩
  · rw [List.getElem?_set_ne (Ne.symm hji)] at h
    exact .inr ⟨hji, h⟩

theorem get_set_self {items : List α} {i : Nat} {old : α} (h : items[i]? = some old) (a : α) :
    (items.set i a)[i]? = some a :=
  List.getElem?_set_self (List.getElem?_eq_some_iff.mp h).1

end Errand.Lib.Slots

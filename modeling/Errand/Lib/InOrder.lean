import Mathlib.Data.List.Basic

/-
  Errand.Lib.InOrder — parts that stand in a text one behind another.

  Rules: the parts of two texts stand in the two joined (`inOrder_append`), and those of texts in
  the texts with a separator between them (`inOrder_intercalate`).
-/

namespace Errand.Lib

universe u

variable {α : Type u}

/-- The parts stand in the text in their order, apart from each other. -/
def InOrder : List (List α) → List α → Prop
  | [], _ => True
  | part :: parts, s => ∃ a b, s = a ++ part ++ b ∧ InOrder parts b

theorem inOrder_behind {parts : List (List α)} {s : List α} (h : InOrder parts s) (a : List α) : InOrder parts (a ++ s) := by
  cases parts with
  | nil => trivial
  | cons part parts =>
    obtain ⟨x, y, rfl, hrest⟩ := h
    exact ⟨a ++ x, y, by simp, hrest⟩

theorem inOrder_append {parts others : List (List α)} {s t : List α} (hs : InOrder parts s) (ht : InOrder others t) :
    InOrder (parts ++ others) (s ++ t) := by
  induction parts generalizing s with
  | nil => exact inOrder_behind ht s
  | cons part parts ih =>
    obtain ⟨a, b, rfl, hrest⟩ := hs
    exact ⟨a, b ++ t, by simp, ih hrest⟩

theorem inOrder_self (s : List α) : InOrder [s] s := ⟨[], [], by simp, trivial⟩

/-- What has no text has no parts but empty ones. -/
theorem inOrder_of_nil {parts : List (List α)} (h : InOrder parts []) (s : List α) : InOrder parts s := by
  induction parts generalizing s with
  | nil => trivial
  | cons part parts ih =>
    obtain ⟨a, b, hsplit, hrest⟩ := h
    obtain ⟨hfront, rfl⟩ := List.append_eq_nil_iff.mp hsplit.symm
    obtain ⟨-, rfl⟩ := List.append_eq_nil_iff.mp hfront
    exact ⟨[], s, rfl, ih hrest s⟩

theorem inOrder_intercalate_cons {parts others : List (List α)} {s : List α} {texts : List (List α)} (sep : List α)
    (hs : InOrder parts s) (h : InOrder others (sep.intercalate texts)) :
    InOrder (parts ++ others) (sep.intercalate (s :: texts)) := by
  cases texts with
  | nil =>
    have hright := inOrder_append hs h
    rw [List.intercalate_nil, List.append_nil] at hright
    rwa [List.intercalate_singleton]
  | cons t texts =>
    rw [List.intercalate_cons_cons, List.append_assoc]
    exact inOrder_append hs (inOrder_behind h sep)

/-- Texts that each have parts, with a separator between them. -/
theorem inOrder_intercalate {ι : Type u} {items : List ι} {parts : ι → List (List α)} {text : ι → List α}
    (h : ∀ i ∈ items, InOrder (parts i) (text i)) (sep : List α) :
    InOrder (items.flatMap parts) (sep.intercalate (items.map text)) := by
  induction items with
  | nil => trivial
  | cons i items ih =>
    exact inOrder_intercalate_cons sep (h i List.mem_cons_self) (ih fun j hj => h j (List.mem_cons_of_mem i hj))

end Errand.Lib

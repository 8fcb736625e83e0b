import Mathlib.Data.List.Basic

/-
  Errand.Lib.Heap — cells that several lists can share, and a deep copy of them.

  A list holds references; two positions may hold the same one. `deepcopy` copies each cell
  once, to a fresh place, so the copy of a list shares its cells as the list does. Which
  fresh place is open in a program; here the copy of a cell lies `next` places above it.

  Rules:
  - `read_copy`: a copy holds what its cell held.
  - `old_copy`, `old_write`: neither a copy nor a write to a new place touches the old cells.
-/

namespace Errand.Lib

abbrev Ref := Nat

structure Heap (α : Type) where
  read : Ref → α
  next : Ref

namespace Heap

variable {α : Type}

def write (h : Heap α) (r : Ref) (v : α) : Heap α := { h with read := fun q => if q = r then v else h.read q }

def copyOf (h : Heap α) (r : Ref) : Ref := h.next + r

/-- `copy.deepcopy` of a list of references. -/
def deepcopy (h : Heap α) (refs : List Ref) : Heap α × List Ref :=
  (⟨fun r => if h.next ≤ r then h.read (r - h.next) else h.read r, h.next + h.next⟩, refs.map h.copyOf)

/-- Every reference is to a cell. -/
def Holds (h : Heap α) (refs : List Ref) : Prop := ∀ r ∈ refs, r < h.next

/-- The cells of the first heap are as they were. -/
def Keeps (h h' : Heap α) : Prop := ∀ r < h.next, h'.read r = h.read r

theorem read_write_other (h : Heap α) {r q : Ref} (v : α) (hq : q ≠ r) : (h.write r v).read q = h.read q := if_neg hq

theorem read_write (h : Heap α) (r q : Ref) (v : α) : (h.write r v).read q = if q = r then v else h.read q := rfl

theorem copyOf_inj {h : Heap α} {r q : Ref} : h.copyOf r = h.copyOf q ↔ r = q :=
  Nat.add_left_cancel_iff

theorem read_copy (h : Heap α) (refs : List Ref) (r : Ref) : (h.deepcopy refs).1.read (h.copyOf r) = h.read r := by
  show (if h.next ≤ h.next + r then h.read (h.next + r - h.next) else h.read (h.next + r)) = h.read r
  rw [if_pos (Nat.le_add_right _ _), Nat.add_sub_cancel_left]

theorem Keeps.rfl {h : Heap α} : h.Keeps h := fun _ _ => Eq.refl _

theorem old_copy (h : Heap α) (refs : List Ref) : h.Keeps (h.deepcopy refs).1 := by
  intro r hr
  exact if_neg (Nat.not_le.mpr hr)

theorem old_write {h h' : Heap α} (hk : h.Keeps h') (r : Ref) (v : α) : h.Keeps (h'.write (h.copyOf r) v) := by
  intro q hq
  have hne : q ≠ h.copyOf r := Nat.ne_of_lt (Nat.lt_of_lt_of_le hq (Nat.le_add_right _ _))
  rw [read_write_other h' v hne]
  exact hk q hq

end Heap

end Errand.Lib

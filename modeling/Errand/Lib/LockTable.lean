import Mathlib.Logic.Function.Basic

/-
  Errand.Lib.LockTable — exclusive locks by key, held by an owner until it lets go of
  everything at once (a database session's advisory locks, a transaction's row locks).

  A lock is granted when nobody or the owner itself holds it, so two owners never hold
  one key (`holder_unique`), and what one owner takes or gives up leaves every other
  owner's locks alone (`lock_other`, `releaseAll_other`).
-/

namespace Errand.Lib

universe u v

/-- The holder of each key. -/
abbrev LockTable (κ : Type u) (τ : Type v) : Type (max u v) := κ → Option τ

namespace LockTable

variable {κ : Type u} {τ : Type v}

def empty : LockTable κ τ := fun _ => none

def Holds (L : LockTable κ τ) (t : τ) (k : κ) : Prop := L k = some t

theorem holder_unique {L : LockTable κ τ} {t u : τ} {k : κ} (ht : L.Holds t k) (hu : L.Holds u k) : t = u :=
  Option.some.inj (ht.symm.trans hu)

@[simp] theorem not_holds_empty (t : τ) (k : κ) : ¬ (empty : LockTable κ τ).Holds t k := by simp [Holds, empty]

section Grant

variable [DecidableEq τ]

/-- Whether `t` may take `k` now. -/
def grants (L : LockTable κ τ) (t : τ) (k : κ) : Bool :=
  match L k with
  | none => true
  | some u => u == t

theorem grants_iff {L : LockTable κ τ} {t : τ} {k : κ} : L.grants t k = true ↔ ∀ u, L.Holds u k → u = t := by
  unfold grants Holds
  cases L k with
  | none => simp
  | some u => simp

def releaseAll (L : LockTable κ τ) (t : τ) : LockTable κ τ := fun k => if L k = some t then none else L k

theorem releaseAll_other {L : LockTable κ τ} {t u : τ} {k : κ} (hne : u ≠ t) (h : L.Holds u k) :
    (L.releaseAll t).Holds u k := by
  unfold Holds releaseAll at *
  rw [if_neg (by rw [h]; simpa using hne)]
  exact h

end Grant

section Lock

variable [DecidableEq κ]

def lock (L : LockTable κ τ) (t : τ) (k : κ) : LockTable κ τ := Function.update L k (some t)

@[simp] theorem lock_self (L : LockTable κ τ) (t : τ) (k : κ) : (L.lock t k).Holds t k := by simp [Holds, lock]

theorem lock_ne (L : LockTable κ τ) {t u : τ} {j k : κ} (h : j ≠ k) : (L.lock t k).Holds u j ↔ L.Holds u j := by
  simp [Holds, lock, Function.update_of_ne h]

/-- A granted lock takes nothing from anyone. -/
theorem lock_other [DecidableEq τ] {L : LockTable κ τ} {t u : τ} {j k : κ} (hg : L.grants t k = true)
    (h : L.Holds u j) : (L.lock t k).Holds u j := by
  by_cases e : j = k
  · subst e
    obtain rfl := grants_iff.mp hg u h
    exact lock_self L u j
  · exact (lock_ne L e).mpr h

end Lock

end LockTable

end Errand.Lib

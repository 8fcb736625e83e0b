import Mathlib.Data.Option.Basic

/-
  Errand.Lib.ExpiringKey — one key of a store whose entries go by themselves when their time
  to live is over: what SET NX EX, GET, EXPIRE, DEL and a check-and-delete make of it, each
  at one moment, and what the time that passes does.

  Rules: the value under the key after each of them (`get_expire`, `get_delIf_some`,
  `get_elapse_some`); extending an entry whose time has run shows (`expire_ne`).
-/

namespace Errand.Lib.ExpiringKey

universe u

structure Entry (α : Type u) where
  value : α
  ttl : Nat
  deriving DecidableEq, Repr

variable {α : Type u}

def get (key : Option (Entry α)) : Option α := key.map (·.value)

/-- Whether the entry is set, and the key after it. -/
def setNx (key : Option (Entry α)) (value : α) (ttl : Nat) : Bool × Option (Entry α) :=
  match key with
  | none => (true, some ⟨value, ttl⟩)
  | some entry => (false, some entry)

def expire (key : Option (Entry α)) (ttl : Nat) : Option (Entry α) := key.map fun entry => { entry with ttl := ttl }

def elapse (key : Option (Entry α)) (n : Nat) : Option (Entry α) :=
  key.bind fun entry => if n < entry.ttl then some { entry with ttl := entry.ttl - n } else none

@[simp] theorem get_expire (key : Option (Entry α)) (ttl : Nat) : get (expire key ttl) = get key := by
  cases key <;> rfl

/-- What is there after a while was there before. -/
theorem get_elapse_some {key : Option (Entry α)} {n : Nat} {value : α} (h : get (elapse key n) = some value) :
    get key = some value := by
  cases key with
  | none => exact h
  | some entry =>
    unfold elapse at h
    simp only [Option.bind_some] at h
    split at h
    · exact h
    · cases h

/-- Extending an entry whose time has run. -/
theorem expire_ne {entry : Entry α} {ttl : Nat} (h : entry.ttl ≠ ttl) : expire (some entry) ttl ≠ some entry := by
  intro heq
  exact h (congrArg Entry.ttl (Option.some.inj heq)).symm

section Delete

variable [DecidableEq α]

/-- The key is deleted if it has the value. -/
def delIf (key : Option (Entry α)) (value : α) : Option (Entry α) := if get key = some value then none else key

theorem delIf_other {key : Option (Entry α)} {value : α} (h : get key ≠ some value) : delIf key value = key := if_neg h

theorem get_delIf_some {key : Option (Entry α)} {value other : α} (h : get (delIf key value) = some other) :
    get key = some other := by
  unfold delIf at h
  split at h
  · cases h
  · exact h

end Delete

end Errand.Lib.ExpiringKey

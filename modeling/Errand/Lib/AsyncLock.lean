import Mathlib.Data.List.Basic

/-
  Errand.Lib.AsyncLock — Python's `asyncio.Lock`: a flag and a queue of waiters, each with
  a future of its own.

  A lock is taken at once if it is free and every waiter has been cancelled, and else
  waited for. Who releases it, or goes away unserved while it is free, wakes the waiter at
  the head of the queue, if that one's future is still pending. A waiter that runs again
  leaves the queue: it takes the lock if its future has a result, and raises if the future
  was cancelled or the task was, which it may be behind a result.

  Rules: `Guards` says of a lock and of those inside it that there is one at most, that the
  flag is set while there is, and that only the head of the queue is ever awake, while the
  lock is free. Every operation keeps it (`Guards.acquire`, `Guards.resume`,
  `Guards.unwind`, `Guards.remove`, `Guards.cancel`, `Guards.release`). `ids` has who waits,
  `future?_isSome_iff` that they have a future.
-/

namespace Errand.Lib

universe u

inductive Future where
  | pending
  | woken
  | cancelled
  deriving DecidableEq, Repr

structure AsyncLock (κ : Type u) where
  locked : Bool
  waiters : List (κ × Future)
  deriving DecidableEq, Repr

namespace AsyncLock

variable {κ : Type u}

def free : AsyncLock κ := ⟨false, []⟩

/-- `_wake_up_first`. -/
def wakeUpFirst (L : AsyncLock κ) : AsyncLock κ :=
  match L.waiters with
  | (k, .pending) :: rest => { L with waiters := (k, .woken) :: rest }
  | _ => L

/-- `acquire` takes the lock without waiting. -/
def open? (L : AsyncLock κ) : Bool := !L.locked && L.waiters.all fun w => w.2 = .cancelled

def take (L : AsyncLock κ) : AsyncLock κ := { L with locked := true }

def wait (L : AsyncLock κ) (k : κ) : AsyncLock κ := { L with waiters := L.waiters ++ [(k, .pending)] }

def release (L : AsyncLock κ) : AsyncLock κ := ({ L with locked := false } : AsyncLock κ).wakeUpFirst

section Waiter

variable [DecidableEq κ]

/-- `_waiters.remove`. -/
def remove (L : AsyncLock κ) (k : κ) : AsyncLock κ := { L with waiters := L.waiters.filter fun w => w.1 ≠ k }

/-- The rest of `acquire` behind a result. -/
def resume (L : AsyncLock κ) (k : κ) : AsyncLock κ := (L.remove k).take

/-- The rest of `acquire` behind a `CancelledError`. -/
def unwind (L : AsyncLock κ) (k : κ) : AsyncLock κ :=
  if (L.remove k).locked then L.remove k else (L.remove k).wakeUpFirst

/-- A waiter's pending future is cancelled. -/
def cancel (L : AsyncLock κ) (k : κ) : AsyncLock κ :=
  { L with waiters := L.waiters.map fun w => if w.1 = k ∧ w.2 = .pending then (w.1, .cancelled) else w }

def future? (L : AsyncLock κ) (k : κ) : Option Future := (L.waiters.find? fun w => w.1 = k).map Prod.snd

theorem mem_of_future {L : AsyncLock κ} {k : κ} {f : Future} (hf : L.future? k = some f) : (k, f) ∈ L.waiters := by
  obtain ⟨w, hw, rfl⟩ := Option.map_eq_some_iff.mp hf
  have hk : w.1 = k := by simpa using List.find?_some hw
  subst hk
  exact List.mem_of_find?_eq_some hw

end Waiter

/-! ## Who waits -/

def ids (L : AsyncLock κ) : List κ := L.waiters.map Prod.fst

@[simp] theorem ids_wakeUpFirst (L : AsyncLock κ) : L.wakeUpFirst.ids = L.ids := by
  unfold wakeUpFirst ids
  split
  · rename_i k rest hw
    rw [hw]
    rfl
  · rfl

@[simp] theorem ids_release (L : AsyncLock κ) : L.release.ids = L.ids := ids_wakeUpFirst _

@[simp] theorem ids_wait (L : AsyncLock κ) (k : κ) : (L.wait k).ids = L.ids ++ [k] := by
  simp [ids, wait]

section Waiter

variable [DecidableEq κ] (L : AsyncLock κ) (k : κ)

@[simp] theorem ids_remove : (L.remove k).ids = L.ids.filter (· ≠ k) := by
  unfold ids remove
  rw [List.filter_map]
  rfl

@[simp] theorem ids_resume : (L.resume k).ids = L.ids.filter (· ≠ k) := ids_remove L k

@[simp] theorem ids_unwind : (L.unwind k).ids = L.ids.filter (· ≠ k) := by
  unfold unwind
  split
  · exact ids_remove L k
  · rw [ids_wakeUpFirst, ids_remove]

@[simp] theorem ids_cancel : (L.cancel k).ids = L.ids := by
  unfold ids cancel
  rw [List.map_map]
  apply List.map_congr_left
  intro w hw
  show (if w.1 = k ∧ w.2 = .pending then (w.1, Future.cancelled) else w).1 = w.1
  split
  · rfl
  · rfl

theorem future?_isSome_iff : (L.future? k).isSome = true ↔ k ∈ L.ids := by
  simp [future?, ids]

end Waiter

/-! ## Who is inside -/

structure Guards (L : AsyncLock κ) (inside : κ → Prop) : Prop where
  alone : ∀ j k, inside j → inside k → j = k
  held : ∀ k, inside k → L.locked = true
  unlocked : ∀ w ∈ L.waiters, w.2 = .woken → L.locked = false
  first : ∀ w ∈ L.waiters.tail, w.2 ≠ .woken

theorem guards_free : (free : AsyncLock κ).Guards fun _ => False :=
  ⟨by simp, by simp, by simp [free], by simp [free]⟩

section Keep

variable {L : AsyncLock κ} {inside : κ → Prop}

/-- The same lock, of the same ones inside. -/
theorem Guards.congr {inside' : κ → Prop} (h : L.Guards inside) (hin : ∀ k, inside' k ↔ inside k) : L.Guards inside' := by
  obtain rfl : inside' = inside := funext fun k => propext (hin k)
  exact h

theorem Guards.none_inside (h : L.Guards inside) (hl : L.locked = false) (k : κ) : ¬ inside k := by
  intro hk
  have hheld := h.held k hk
  rw [hl] at hheld
  cases hheld

theorem Guards.wakeUpFirst (h : L.Guards inside) (hl : L.locked = false) : L.wakeUpFirst.Guards inside := by
  unfold AsyncLock.wakeUpFirst
  split
  · rename_i k rest hw
    have hfirst := h.first
    rw [hw] at hfirst
    exact ⟨h.alone, h.held, fun _ _ _ => hl, hfirst⟩
  · exact h

/-- A lock taken while it is free and no waiter is awake. -/
theorem Guards.taken (h : L.Guards inside) (hl : L.locked = false) (hw : ∀ w ∈ L.waiters, w.2 ≠ .woken) (k : κ) :
    L.take.Guards fun j => inside j ∨ j = k := by
  have honly : ∀ j, inside j ∨ j = k → j = k := fun j hj => hj.resolve_left (h.none_inside hl j)
  refine ⟨?_, fun _ _ => rfl, ?_, h.first⟩
  · intro i j hi hj
    exact (honly i hi).trans (honly j hj).symm
  · intro w hmem hwoken
    exact absurd hwoken (hw w hmem)

theorem Guards.take (h : L.Guards inside) (ho : L.open? = true) (k : κ) :
    L.take.Guards fun j => inside j ∨ j = k := by
  rw [open?, Bool.and_eq_true, Bool.not_eq_true', List.all_eq_true] at ho
  apply h.taken ho.1
  intro w hw hwoken
  have hcancelled := of_decide_eq_true (ho.2 w hw)
  rw [hwoken] at hcancelled
  cases hcancelled

theorem Guards.wait (h : L.Guards inside) (k : κ) : (L.wait k).Guards inside := by
  have hpending : ∀ w ∈ [(k, Future.pending)], w.2 ≠ .woken := by
    intro w hw
    rw [List.mem_singleton.mp hw]
    nofun
  refine ⟨h.alone, h.held, ?_, ?_⟩
  · intro w hw hwoken
    rcases List.mem_append.mp hw with hw | hw
    · exact h.unlocked w hw hwoken
    · exact absurd hwoken (hpending w hw)
  · intro w hw
    have hfirst := h.first
    unfold AsyncLock.wait at hw
    cases hl : L.waiters with
    | nil =>
      rw [hl] at hw
      cases hw
    | cons v rest =>
      rw [hl] at hw hfirst
      rcases List.mem_append.mp hw with hw | hw
      · exact hfirst w hw
      · exact hpending w hw

/-- The head keeps its place, or those behind it move up. -/
theorem tail_filter {l : List (κ × Future)} (p : κ × Future → Bool) {w : κ × Future} (hw : w ∈ (l.filter p).tail) :
    w ∈ l.tail := by
  cases l with
  | nil => cases hw
  | cons v rest =>
    rw [List.filter_cons] at hw
    split at hw
    · exact (List.mem_filter.mp hw).1
    · exact (List.mem_filter.mp (List.mem_of_mem_tail hw)).1

/-- Who leaves leaves nobody inside. -/
theorem Guards.release (h : L.Guards inside) {k : κ} (hk : inside k) :
    L.release.Guards fun j => inside j ∧ j ≠ k := by
  have hnone : ∀ j, ¬ (inside j ∧ j ≠ k) := fun j hj => hj.2 (h.alone j k hj.1 hk)
  unfold AsyncLock.release
  apply Guards.wakeUpFirst
  · exact ⟨fun j _ hj => absurd hj (hnone j), fun j hj => absurd hj (hnone j), fun _ _ _ => rfl, h.first⟩
  · rfl

variable [DecidableEq κ]

theorem Guards.remove (h : L.Guards inside) (k : κ) : (L.remove k).Guards inside := by
  refine ⟨h.alone, h.held, ?_, ?_⟩
  · intro w hw hwoken
    exact h.unlocked w (List.mem_filter.mp hw).1 hwoken
  · intro w hw
    exact h.first w (tail_filter _ hw)

theorem Guards.unwind (h : L.Guards inside) (k : κ) : (L.unwind k).Guards inside := by
  unfold AsyncLock.unwind
  split
  · exact h.remove k
  · rename_i hl
    exact (h.remove k).wakeUpFirst (Bool.not_eq_true _ ▸ hl)

theorem Guards.resume (h : L.Guards inside) {k : κ} (hk : L.future? k = some .woken) :
    (L.resume k).Guards fun j => inside j ∨ j = k := by
  have hmem := mem_of_future hk
  apply (h.remove k).taken
  · exact h.unlocked _ hmem rfl
  · intro w hw hwoken
    obtain ⟨hw, hne⟩ := List.mem_filter.mp hw
    have hne := of_decide_eq_true hne
    -- both stand at the head of the queue
    have hfirst := h.first
    cases hl : L.waiters with
    | nil =>
      rw [hl] at hw
      cases hw
    | cons v rest =>
      rw [hl] at hw hmem hfirst
      rcases List.mem_cons.mp hw with rfl | hw
      · rcases List.mem_cons.mp hmem with rfl | hmem
        · exact hne rfl
        · exact hfirst _ hmem rfl
      · exact hfirst w hw hwoken

theorem Guards.cancel (h : L.Guards inside) (k : κ) : (L.cancel k).Guards inside := by
  have hold : ∀ {v : κ × Future}, (if v.1 = k ∧ v.2 = .pending then (v.1, Future.cancelled) else v).2 = .woken →
      v.2 = .woken := by
    intro v hv
    split at hv
    · cases hv
    · exact hv
  refine ⟨h.alone, h.held, ?_, ?_⟩
  · intro w hw hwoken
    obtain ⟨v, hv, rfl⟩ := List.mem_map.mp hw
    exact h.unlocked v hv (hold hwoken)
  · intro w hw hwoken
    unfold AsyncLock.cancel at hw
    rw [← List.map_tail] at hw
    obtain ⟨v, hv, rfl⟩ := List.mem_map.mp hw
    exact h.first v hv (hold hwoken)

end Keep

end AsyncLock

end Errand.Lib

import Mathlib.Data.List.Count
import Errand.Lib.Machine

/-
  Errand.Server.Concurrency — the limit on concurrent tasks
  (`_update_concurrency_setting`, `_poll_and_dispatch`, `_run_task`,
  errand/task_manager.py).

  A poll reads the setting, looks at the semaphore's free permits, and, awaiting several
  times in between, dispatches one task, which takes a permit before the next poll. A
  changed setting replaces the semaphore: running tasks keep their permits of the old one
  and give them back to it, and the check reads the new one only. Tasks finish at any
  moment.

  Proved:
  - `dispatch_within_limit`: when a poll starts a task, the tasks started since the limit
    last changed, the new one among them, are within the limit; all running tasks are,
    when none from before the change is left.
  - `permits_balance`: a semaphore's free permits and the tasks holding one add up to the
    limit it was made for.
  - `four_at_limit_three`: a limit changed from 3 to 2 and back starts a fourth task
    beside three running ones.
-/

namespace Errand.Server.Concurrency

open Errand.Lib

inductive Poll where
  | idle
  /-- `_update_concurrency_setting` is done. -/
  | updated
  /-- The capacity check passed. -/
  | admitted
  deriving DecidableEq, Repr

structure St where
  maxConcurrentTasks : Int
  /-- The semaphore object `_semaphore` names; each change of the limit makes a new one. -/
  semaphore : Nat
  /-- `_value` of each semaphore object. -/
  value : Nat → Int
  /-- For each task being processed, the semaphore it holds a permit of. -/
  processing : List Nat
  poll : Poll

/-- `__init__`. -/
def start (resolved : Int) : St := ⟨max 1 resolved, 0, fun _ => max 1 resolved, [], .idle⟩

/-- `_update_concurrency_setting` on what the setting resolved to; nothing if that raised. -/
def updateConcurrencySetting (s : St) : Option Int → St
  | none => s
  | some resolvedMax =>
    let newMax := max 1 resolvedMax
    if newMax ≠ s.maxConcurrentTasks then
      { s with
        maxConcurrentTasks := newMax
        semaphore := s.semaphore + 1
        value := Function.update s.value (s.semaphore + 1) newMax }
    else s

/-- Entering `async with self._semaphore`; a task that finds no permit would wait. -/
def acquire (s : St) : Option St :=
  if 0 < s.value s.semaphore then
    some { s with
      value := Function.update s.value s.semaphore (s.value s.semaphore - 1)
      processing := s.semaphore :: s.processing }
  else none

def release (s : St) (g : Nat) : St :=
  { s with value := Function.update s.value g (s.value g + 1), processing := s.processing.erase g }

inductive Ev where
  | update (resolved : Option Int)
  | check
  /-- A task was dequeued: its coroutine starts and enters the semaphore. -/
  | dispatch
  /-- Nothing was pending, or the poll raised. -/
  | giveUp
  /-- A task holding a permit of semaphore `g` ends. -/
  | finish (g : Nat)
  deriving Repr

def step (s : St) : Ev → Option St
  | .update resolved =>
    if s.poll = .idle then some { updateConcurrencySetting s resolved with poll := .updated } else none
  | .check =>
    if s.poll = .updated then
      some { s with poll := if s.value s.semaphore ≤ 0 then .idle else .admitted }
    else none
  | .dispatch => if s.poll = .admitted then (acquire s).map fun s => { s with poll := .idle } else none
  | .giveUp => some { s with poll := .idle }
  | .finish g => if g ∈ s.processing then some (release s g) else none

def machine : Machine St Ev := ⟨fun s => ∃ resolved, s = start resolved, step⟩

/-! ## Permits -/

structure Inv (s : St) : Prop where
  atLeastOne : 1 ≤ s.maxConcurrentTasks
  balance : s.value s.semaphore + s.processing.count s.semaphore = s.maxConcurrentTasks
  known : ∀ g ∈ s.processing, g ≤ s.semaphore
  admitted : s.poll = .admitted → 0 < s.value s.semaphore

theorem inv_start (resolved : Int) : Inv (start resolved) := by
  refine ⟨?_, ?_, ?_, ?_⟩
  · simp only [start]; omega
  · simp [start]
  · intro g hg; cases hg
  · intro h; cases h

theorem update_inv {s : St} (h : Inv s) (resolved : Option Int) :
    Inv { updateConcurrencySetting s resolved with poll := .updated } := by
  cases resolved with
  | none => exact ⟨h.atLeastOne, h.balance, h.known, by intro hp; cases hp⟩
  | some r =>
    simp only [updateConcurrencySetting]
    split
    · -- nobody holds a permit of the new semaphore yet
      have hnew : s.processing.count (s.semaphore + 1) = 0 := by
        apply List.count_eq_zero.mpr
        intro hm
        have := h.known _ hm
        omega
      refine ⟨?_, ?_, fun g hg => ?_, by intro hp; cases hp⟩
      · simp only; omega
      · simp [hnew]
      · have := h.known g hg
        simp only; omega
    · exact ⟨h.atLeastOne, h.balance, h.known, by intro hp; cases hp⟩

theorem acquire_inv {s s' : St} (h : Inv s) (hs : acquire s = some s') : Inv { s' with poll := .idle } := by
  unfold acquire at hs
  split at hs
  · cases hs
    have hb := h.balance
    refine ⟨h.atLeastOne, ?_, fun g hg => ?_, by intro hp; cases hp⟩
    · simp only [Function.update_self, List.count_cons_self]; omega
    · rcases List.mem_cons.mp hg with rfl | hg
      · exact Nat.le_refl _
      · exact h.known g hg
  · cases hs

theorem release_inv {s : St} {g : Nat} (h : Inv s) (hg : g ∈ s.processing) : Inv (release s g) := by
  have hb := h.balance
  have hpos := List.count_pos_iff.mpr hg
  refine ⟨h.atLeastOne, ?_, fun g' hg' => h.known g' (List.mem_of_mem_erase hg'), fun hp => ?_⟩
  · simp only [release]
    by_cases e : g = s.semaphore
    · subst e
      rw [Function.update_self, List.count_erase_self]
      omega
    · rw [Function.update_of_ne (Ne.symm e), List.count_erase_of_ne (Ne.symm e)]
      exact hb
  · have := h.admitted hp
    simp only [release]
    by_cases e : s.semaphore = g
    · subst e; rw [Function.update_self]; omega
    · rw [Function.update_of_ne e]; exact this

theorem step_inv {s s' : St} {e : Ev} (h : Inv s) (hs : step s e = some s') : Inv s' := by
  cases e with
  | update resolved =>
    simp only [step] at hs
    split at hs
    · cases hs; exact update_inv h resolved
    · cases hs
  | check =>
    simp only [step] at hs
    split at hs
    · cases hs
      refine ⟨h.atLeastOne, h.balance, h.known, fun hp => ?_⟩
      simp only at hp
      split at hp
      · cases hp
      · simp only; omega
    · cases hs
  | dispatch =>
    simp only [step] at hs
    split at hs
    · obtain ⟨t, ht, rfl⟩ := Option.map_eq_some_iff.mp hs
      exact acquire_inv h ht
    · cases hs
  | giveUp => cases hs; exact ⟨h.atLeastOne, h.balance, h.known, by intro hp; cases hp⟩
  | finish g =>
    simp only [step] at hs
    split at hs
    · rename_i hg; cases hs; exact release_inv h hg
    · cases hs

theorem inv {s : St} (h : machine.Reach s) : Inv s :=
  h.inv (fun s (hi : ∃ resolved, s = start resolved) => by obtain ⟨r, rfl⟩ := hi; exact inv_start r)
    fun s e s' hp (hst : step s e = some s') => step_inv hp hst

/-- The free permits of the current semaphore and the tasks holding one make the limit. -/
theorem permits_balance {s : St} (h : machine.Reach s) :
    s.value s.semaphore + s.processing.count s.semaphore = s.maxConcurrentTasks :=
  (inv h).balance

/-- When a poll starts a task, the tasks then being processed that started since the limit
    last changed, including the new one, are within the limit in force; and so are all
    of them, when none from before that change is left. -/
theorem dispatch_within_limit {s s' : St} (h : machine.Reach s) (hs : machine.step s .dispatch = some s') :
    (s'.processing.count s'.semaphore : Int) ≤ s'.maxConcurrentTasks ∧
      ((∀ g ∈ s'.processing, g = s'.semaphore) → (s'.processing.length : Int) ≤ s'.maxConcurrentTasks) := by
  have hi := inv (h.step _ hs)
  have hv : 0 ≤ s'.value s'.semaphore := by
    simp only [machine, step] at hs
    split at hs
    · obtain ⟨t, ht, rfl⟩ := Option.map_eq_some_iff.mp hs
      unfold acquire at ht
      split at ht
      · cases ht; simp only [Function.update_self]; omega
      · cases ht
    · cases hs
  have hb := hi.balance
  refine ⟨by omega, fun hall => ?_⟩
  have : s'.processing.count s'.semaphore = s'.processing.length :=
    List.count_eq_length.mpr fun g hg => (hall g hg).symm
  omega

/-! ## Changing the limit -/

/-- One poll that starts a task. -/
def poll (resolved : Int) : List Ev := [.update (some resolved), .check, .dispatch]

theorem first_dispatch_within_limit :
    ∃ s', machine.exec (start 3) (poll 3) = some s' ∧
      (s'.processing.count s'.semaphore : Int) ≤ s'.maxConcurrentTasks ∧
      ((∀ g ∈ s'.processing, g = s'.semaphore) → (s'.processing.length : Int) ≤ s'.maxConcurrentTasks) := by
  have h0 : machine.Reach (start 3) := .init ⟨_, rfl⟩
  have h1 := h0.step (.update (some 3)) rfl
  have h2 := h1.step .check rfl
  exact ⟨_, rfl, dispatch_within_limit h2 rfl⟩

theorem permits_after_a_poll :
    ∃ s', machine.exec (start 3) (poll 3) = some s' ∧ s'.processing.length = 1 ∧
      s'.value s'.semaphore + s'.processing.count s'.semaphore = s'.maxConcurrentTasks :=
  ⟨_, rfl, rfl, permits_balance (Machine.Reach.exec (.init ⟨3, rfl⟩) (rfl : machine.exec (start 3) (poll 3) = some _))⟩

/-- Three tasks run at a limit of 3; the limit goes to 2 and back to 3, and the next poll
    starts a fourth. -/
theorem four_at_limit_three :
    ¬ ∀ s s' : St, machine.Reach s → machine.step s .dispatch = some s' →
      (s'.processing.length : Int) ≤ s'.maxConcurrentTasks := by
  intro h
  have hr : ∃ s, machine.exec (start 3) (poll 3 ++ poll 3 ++ poll 3 ++
      [.update (some 2), .check, .giveUp, .update (some 3), .check]) = some s ∧
      ∃ s', machine.step s .dispatch = some s' ∧ s'.processing.length = 4 ∧ s'.maxConcurrentTasks = 3 :=
    ⟨_, rfl, _, rfl, rfl, rfl⟩
  obtain ⟨s, hs, s', hd, hn, hm⟩ := hr
  have := h s s' (Machine.Reach.exec (.init ⟨_, rfl⟩) hs) hd
  rw [hn, hm] at this
  exact absurd this (by decide)

end Errand.Server.Concurrency

import Errand.Lib.AsyncLock
import Errand.Lib.Dict
import Errand.Lib.Machine
import Errand.Lib.Slots
import Mathlib.Logic.Function.Basic

/-
  Errand.Runner.MutationQueue — the locks that serialise writes to one file
  (`FileMutationQueue`, `_FileLockState`, task-runner/main.py).

  A call of `acquire` resolves its path, finds the path's state object or makes one, counts
  itself as a user of it and takes its lock, at once or after waiting; behind the body, or
  whatever ended the wait, it gives the lock up and stops being a user, and the last user
  takes the object off the table. Calls are numbered in the order they come; a coroutine may
  make any number of them. Nothing else runs between two points where a call waits.

  What a path resolves to is open, each time; resolving may raise. A waiting call's task may
  be cancelled at any time, also when its future has a result and it is about to run; any
  other exception thrown into the wait, and any end of the body, is allowed as well.

  Proved:
  - `mutations_are_serialised`: in every run at most one call is inside for one path, calls
    for one path use one state object and wait at its lock, and a path nobody uses has no
    entry.
-/

namespace Errand.Runner.MutationQueue

open Errand.Lib

/-- `_FileLockState`. -/
structure LockState where
  lock : AsyncLock Nat
  users : Nat

inductive Phase where
  /-- At the lock, and whether the task is to be cancelled when it runs. -/
  | waiting (mustCancel : Bool)
  | inside
  | over
  deriving DecidableEq, Repr

/-- A call of `acquire`. -/
structure Use where
  path : String
  /-- The state object. -/
  state : Nat
  phase : Phase
  deriving DecidableEq, Repr

def Use.active (u : Use) : Bool := u.phase ≠ .over

structure State where
  /-- `_locks`. -/
  locks : List (String × Nat)
  states : Nat → LockState
  /-- The number of state objects made. -/
  made : Nat
  uses : List Use

inductive Event where
  /-- A call, and what its path resolves to. -/
  | enter (resolved : Option String)
  | cancel (i : Nat)
  /-- A waiting task whose future is done runs again. -/
  | resume (i : Nat)
  /-- An exception other than a cancellation ends the wait. -/
  | throw (i : Nat)
  | leave (i : Nat)
  deriving Repr

def freshState : LockState := ⟨AsyncLock.free, 0⟩

def start : State := ⟨[], fun _ => freshState, 0, []⟩

namespace State

variable (s : State)

def put (r : Nat) (o : LockState) : State := { s with states := Function.update s.states r o }

def setPhase (i : Nat) (u : Use) (phase : Phase) : State := { s with uses := s.uses.set i { u with phase := phase } }

/-- A call has counted itself among the users of a state object and come to its lock. -/
def joined (path : String) (r users : Nat) (lock : AsyncLock Nat) (phase : Phase) : State :=
  { s.put r ⟨lock, users + 1⟩ with uses := s.uses ++ [⟨path, r, phase⟩] }

def join (path : String) (r : Nat) (o : LockState) : State :=
  if o.lock.open? then s.joined path r o.users o.lock.take .inside
  else s.joined path r o.users (o.lock.wait s.uses.length) (.waiting false)

def enter (path : String) : State :=
  match Dict.get? s.locks path with
  | some r => s.join path r (s.states r)
  | none =>
    ({ s with locks := Dict.set s.locks path s.made, made := s.made + 1 } : State).join path s.made freshState

/-- The lock changes under a call that goes on. -/
def move (i : Nat) (u : Use) (lock : AsyncLock Nat) (phase : Phase) : State :=
  (s.put u.state ⟨lock, (s.states u.state).users⟩).setPhase i u phase

/-- The `finally` of a call that leaves the lock like this. -/
def finish (i : Nat) (u : Use) (lock : AsyncLock Nat) : State :=
  let o : LockState := ⟨lock, (s.states u.state).users - 1⟩
  let s := (s.put u.state o).setPhase i u .over
  if o.users = 0 then { s with locks := Dict.pop s.locks u.path } else s

end State

def step (s : State) : Event → Option State
  | .enter none => some s
  | .enter (some path) => some (s.enter path)
  | .cancel i => do
    let u ← s.uses[i]?
    let lock := (s.states u.state).lock
    match u.phase, lock.future? i with
    | .waiting _, some .pending => some (s.move i u (lock.cancel i) u.phase)
    | .waiting _, some _ => some (s.move i u lock (.waiting true))
    | _, _ => none
  | .resume i => do
    let u ← s.uses[i]?
    let lock := (s.states u.state).lock
    match u.phase, lock.future? i with
    | .waiting false, some .woken => some (s.move i u (lock.resume i) .inside)
    | .waiting true, some .woken => some (s.finish i u (lock.unwind i))
    | .waiting _, some .cancelled => some (s.finish i u (lock.unwind i))
    | _, _ => none
  | .throw i => do
    let u ← s.uses[i]?
    match u.phase with
    | .waiting _ => some (s.finish i u ((s.states u.state).lock.remove i))
    | _ => none
  | .leave i => do
    let u ← s.uses[i]?
    match u.phase with
    | .inside => some (s.finish i u (s.states u.state).lock.release)
    | _ => none

def machine : Machine State Event := ⟨fun s => s = start, step⟩

/-! ## The invariant -/

namespace State

variable (s : State)

def Inside (r i : Nat) : Prop := ∃ u, s.uses[i]? = some u ∧ u.phase = .inside ∧ u.state = r

def users (r : Nat) : Nat := s.uses.countP fun u => u.active && u.state == r

end State

structure Inv (s : State) : Prop where
  /-- The table has the object of every call that is not over. -/
  entry : ∀ u ∈ s.uses, u.active = true → Dict.get? s.locks u.path = some u.state
  counted : ∀ r, (s.states r).users = s.users r
  used : ∀ p r, Dict.get? s.locks p = some r → 0 < s.users r
  known : ∀ p r, Dict.get? s.locks p = some r → r < s.made
  apart : ∀ p q r, Dict.get? s.locks p = some r → Dict.get? s.locks q = some r → p = q
  guards : ∀ r, (s.states r).lock.Guards (s.Inside r)
  queued : ∀ (i : Nat) (u : Use) (c : Bool), s.uses[i]? = some u → u.phase = .waiting c → i ∈ (s.states u.state).lock.ids

/-- Who is inside at most once for a path, who shares an object, and what the table lacks. -/
structure Serialised (s : State) : Prop where
  /-- One call at most is inside for a path. -/
  exclusive : ∀ (i j : Nat) (u v : Use), s.uses[i]? = some u → s.uses[j]? = some v → u.path = v.path →
    u.phase = .inside → v.phase = .inside → i = j
  /-- Calls for a path that are not over have one state object. -/
  shared : ∀ u ∈ s.uses, ∀ v ∈ s.uses, u.path = v.path → u.phase ≠ .over → v.phase ≠ .over → u.state = v.state
  /-- Who waits stands in the queue of that object's lock, and it is held if one is inside. -/
  waits : ∀ (i : Nat) (u : Use) (c : Bool), s.uses[i]? = some u → u.phase = .waiting c →
    ((s.states u.state).lock.future? i).isSome = true
  holds : ∀ u ∈ s.uses, u.phase = .inside → (s.states u.state).lock.locked = true
  /-- A path nobody uses has no entry. -/
  noLeak : ∀ p, (∀ u ∈ s.uses, u.path = p → u.phase = .over) → Dict.get? s.locks p = none

theorem active_iff (u : Use) : u.active = true ↔ u.phase ≠ .over := by
  simp [Use.active]

theorem Inv.serialised {s : State} (h : Inv s) : Serialised s := by
  have hentry : ∀ u ∈ s.uses, u.phase ≠ .over → Dict.get? s.locks u.path = some u.state :=
    fun u hu hp => h.entry u hu ((active_iff u).mpr hp)
  have hshared : ∀ u ∈ s.uses, ∀ v ∈ s.uses, u.path = v.path → u.phase ≠ .over → v.phase ≠ .over →
      u.state = v.state := by
    intro u hu v hv hpath hpu hpv
    have heu := hentry u hu hpu
    rw [hpath, hentry v hv hpv] at heu
    exact (Option.some.inj heu).symm
  refine ⟨?_, hshared, ?_, ?_, ?_⟩
  · intro i j u v hu hv hpath hpu hpv
    have hstate := hshared u (List.mem_of_getElem? hu) v (List.mem_of_getElem? hv) hpath
      (by rw [hpu]; nofun) (by rw [hpv]; nofun)
    exact (h.guards u.state).alone i j ⟨u, hu, hpu, rfl⟩ ⟨v, hv, hpv, hstate.symm⟩
  · intro i u c hu hp
    exact (AsyncLock.future?_isSome_iff _ _).mpr (h.queued i u c hu hp)
  · intro u hu hp
    obtain ⟨i, hi⟩ := List.mem_iff_getElem?.mp hu
    exact (h.guards u.state).held i ⟨u, hi, hp, rfl⟩
  · intro p hp
    cases hget : Dict.get? s.locks p with
    | none => rfl
    | some r =>
      obtain ⟨u, hu, hr⟩ := List.countP_pos_iff.mp (h.used p r hget)
      rw [Bool.and_eq_true, beq_iff_eq] at hr
      have hup := h.entry u hu hr.1
      rw [hr.2] at hup
      exact absurd (hp u hu (h.apart _ _ r hup hget)) ((active_iff u).mp hr.1)

/-! ## One call changes -/

theorem countP_set_add {l : List Use} {i : Nat} {u : Use} (hu : l[i]? = some u) (v : Use) (p : Use → Bool) :
    (l.set i v).countP p + (if p u then 1 else 0) = l.countP p + if p v then 1 else 0 := by
  induction l generalizing i with
  | nil => cases hu
  | cons w l ih =>
    cases i with
    | zero =>
      cases hu
      rw [List.set_cons_zero, List.countP_cons, List.countP_cons]
      omega
    | succ i =>
      have hi := ih hu
      rw [List.set_cons_succ, List.countP_cons, List.countP_cons]
      omega

section Change

variable {s : State} {i : Nat} {u : Use}

theorem users_setPhase (hu : s.uses[i]? = some u) (ha : u.active = true) (phase : Phase) (r : Nat) :
    (s.setPhase i u phase).users r + (if u.state = r then 1 else 0) =
      s.users r + if phase ≠ .over ∧ u.state = r then 1 else 0 := by
  have hcount := countP_set_add hu { u with phase := phase } fun v => v.active && v.state == r
  have hphase := (active_iff u).mp ha
  simp only [Use.active, Bool.and_eq_true, decide_eq_true_eq, beq_iff_eq, hphase, ne_eq, not_false_eq_true,
    true_and] at hcount
  exact hcount

theorem inside_setPhase (hu : s.uses[i]? = some u) (phase : Phase) (r j : Nat) :
    (s.setPhase i u phase).Inside r j ↔ if j = i then phase = .inside ∧ u.state = r else s.Inside r j := by
  unfold State.Inside State.setPhase
  by_cases hj : j = i
  · subst hj
    rw [if_pos rfl, Slots.get_set_self hu]
    constructor
    · intro h
      obtain ⟨v, hv, hp, hr⟩ := h
      cases hv
      exact ⟨hp, hr⟩
    · intro h
      exact ⟨_, rfl, h.1, h.2⟩
  · rw [if_neg hj, List.getElem?_set_ne (Ne.symm hj)]

theorem mem_setPhase {phase : Phase} {v : Use} (hv : v ∈ (s.setPhase i u phase).uses) :
    v = { u with phase := phase } ∨ v ∈ s.uses := by
  obtain ⟨j, hj⟩ := List.mem_iff_getElem?.mp hv
  rcases Slots.get_set_cases hj with ⟨-, rfl⟩ | ⟨-, hj⟩
  · exact Or.inl rfl
  · exact Or.inr (List.mem_of_getElem? hj)

theorem move_inv (h : Inv s) (hu : s.uses[i]? = some u) (ha : u.active = true) {lock : AsyncLock Nat} {phase : Phase}
    (hp : phase ≠ .over) (hguards : lock.Guards fun j => if j = i then phase = .inside else s.Inside u.state j)
    (hids : ∀ j ∈ (s.states u.state).lock.ids, j ≠ i → j ∈ lock.ids)
    (hself : ∀ c, phase = .waiting c → i ∈ lock.ids) : Inv (s.move i u lock phase) := by
  have husers : ∀ r, (s.move i u lock phase).users r = s.users r := by
    intro r
    have hcount := users_setPhase hu ha phase r
    simp only [hp, ne_eq, not_false_eq_true, true_and] at hcount
    exact Nat.add_right_cancel hcount
  refine ⟨?_, ?_, ?_, h.known, h.apart, ?_, ?_⟩
  · intro v hv hva
    rcases mem_setPhase hv with rfl | hv
    · exact h.entry u (List.mem_of_getElem? hu) ha
    · exact h.entry v hv hva
  · intro r
    rw [husers, ← h.counted]
    show (Function.update s.states u.state _ r).users = _
    by_cases hr : r = u.state
    · subst hr
      rw [Function.update_self]
    · rw [Function.update_of_ne hr]
  · intro p r hget
    rw [husers]
    exact h.used p r hget
  · intro r
    show (Function.update s.states u.state _ r).lock.Guards _
    by_cases hr : r = u.state
    · subst hr
      rw [Function.update_self]
      refine hguards.congr fun j => ?_
      rw [show (s.move i u lock phase).Inside u.state j ↔ _ from inside_setPhase hu phase u.state j]
      simp
    · rw [Function.update_of_ne hr]
      refine (h.guards r).congr fun j => ?_
      rw [show (s.move i u lock phase).Inside r j ↔ _ from inside_setPhase hu phase r j]
      by_cases hj : j = i
      · subst hj
        rw [if_pos rfl]
        refine iff_of_false (fun hx => hr hx.2.symm) ?_
        intro hx
        obtain ⟨v, hv, -, hvr⟩ := hx
        rw [hu] at hv
        cases hv
        exact hr hvr.symm
      · rw [if_neg hj]
  · intro j v c hv hvp
    show j ∈ (Function.update s.states u.state _ v.state).lock.ids
    rcases Slots.get_set_cases hv with ⟨rfl, rfl⟩ | ⟨hj, hv⟩
    · rw [Function.update_self]
      exact hself c hvp
    · have hq := h.queued j v c hv hvp
      by_cases hr : v.state = u.state
      · rw [hr, Function.update_self]
        rw [hr] at hq
        exact hids j hq hj
      · rw [Function.update_of_ne hr]
        exact hq

@[simp] theorem finish_uses (s : State) (i : Nat) (u : Use) (lock : AsyncLock Nat) :
    (s.finish i u lock).uses = (s.setPhase i u .over).uses := by
  unfold State.finish
  simp only
  split
  · rfl
  · rfl

@[simp] theorem finish_states (s : State) (i : Nat) (u : Use) (lock : AsyncLock Nat) :
    (s.finish i u lock).states = Function.update s.states u.state ⟨lock, (s.states u.state).users - 1⟩ := by
  unfold State.finish
  simp only
  split
  · rfl
  · rfl

@[simp] theorem finish_made (s : State) (i : Nat) (u : Use) (lock : AsyncLock Nat) :
    (s.finish i u lock).made = s.made := by
  unfold State.finish
  simp only
  split
  · rfl
  · rfl

@[simp] theorem finish_users (s : State) (i : Nat) (u : Use) (lock : AsyncLock Nat) (r : Nat) :
    (s.finish i u lock).users r = (s.setPhase i u .over).users r := by
  unfold State.users
  rw [finish_uses]

theorem finish_inside (hu : s.uses[i]? = some u) (lock : AsyncLock Nat) (r j : Nat) :
    (s.finish i u lock).Inside r j ↔ s.Inside r j ∧ j ≠ i := by
  unfold State.Inside
  rw [finish_uses]
  refine (inside_setPhase hu .over r j).trans ?_
  by_cases hj : j = i
  · simp [hj]
  · simp [hj, State.Inside]

/-- One user fewer of its object, the others as before. -/
theorem users_over (hu : s.uses[i]? = some u) (ha : u.active = true) (r : Nat) :
    (s.setPhase i u .over).users r = if r = u.state then s.users r - 1 else s.users r := by
  have hcount := users_setPhase hu ha .over r
  by_cases hr : r = u.state
  · subst hr
    simp only [if_true, ne_eq, not_true_eq_false, false_and, if_false] at hcount ⊢
    omega
  · simpa [Ne.symm hr, hr] using hcount

/-- The table is as before, or without the path if no user of the object is left. -/
theorem finish_table (h : Inv s) (hu : s.uses[i]? = some u) (ha : u.active = true) (lock : AsyncLock Nat) (p : String)
    (r : Nat) :
    Dict.get? (s.finish i u lock).locks p = some r ↔
      Dict.get? s.locks p = some r ∧ ((s.setPhase i u .over).users u.state = 0 → p ≠ u.path) := by
  have hcounted : (s.states u.state).users - 1 = (s.setPhase i u .over).users u.state := by
    rw [h.counted, users_over hu ha, if_pos rfl]
  unfold State.finish
  simp only
  rw [hcounted]
  split
  · rename_i hzero
    constructor
    · intro hget
      obtain ⟨hne, hget⟩ := Dict.get?_pop_some hget
      exact ⟨hget, fun _ => Ne.symm hne⟩
    · intro hget
      show Dict.get? (Dict.pop s.locks u.path) p = some r
      rw [Dict.get?_pop_other _ (Ne.symm (hget.2 hzero))]
      exact hget.1
  · rename_i hpos
    exact ⟨fun hget => ⟨hget, fun hzero => absurd hzero hpos⟩, fun hget => hget.1⟩

theorem finish_inv (h : Inv s) (hu : s.uses[i]? = some u) (ha : u.active = true) {lock : AsyncLock Nat}
    (hguards : lock.Guards fun j => s.Inside u.state j ∧ j ≠ i)
    (hids : ∀ j ∈ (s.states u.state).lock.ids, j ≠ i → j ∈ lock.ids) : Inv (s.finish i u lock) := by
  have hentry := h.entry u (List.mem_of_getElem? hu) ha
  have htable := finish_table h hu ha lock
  have hactive : ∀ v ∈ (s.setPhase i u .over).uses, v.active = true → v ∈ s.uses := by
    intro v hv hva
    rcases mem_setPhase hv with rfl | hv
    · cases hva
    · exact hv
  refine ⟨?_, ?_, ?_, ?_, ?_, ?_, ?_⟩
  · intro v hv hva
    rw [finish_uses] at hv
    have hold := h.entry v (hactive v hv hva) hva
    refine (htable _ _).mpr ⟨hold, fun hzero hpath => ?_⟩
    -- a call for the same path still uses the object
    rw [hpath, hentry] at hold
    have hpos : 0 < (s.setPhase i u .over).users u.state := by
      refine List.countP_pos_iff.mpr ⟨v, hv, ?_⟩
      rw [hva, Option.some.inj hold, beq_self_eq_true]
      rfl
    omega
  · intro r
    rw [finish_users, finish_states, users_over hu ha]
    by_cases hr : r = u.state
    · subst hr
      rw [Function.update_self, if_pos rfl, ← h.counted]
    · rw [Function.update_of_ne hr, if_neg hr]
      exact h.counted r
  · intro p r hget
    obtain ⟨hget, hzero⟩ := (htable p r).mp hget
    rw [finish_users]
    by_cases hr : r = u.state
    · subst hr
      exact Nat.pos_of_ne_zero fun hz => hzero hz (h.apart _ _ _ hget hentry)
    · rw [users_over hu ha, if_neg hr]
      exact h.used p r hget
  · intro p r hget
    rw [finish_made]
    exact h.known p r ((htable p r).mp hget).1
  · intro p q r hp hq
    exact h.apart p q r ((htable p r).mp hp).1 ((htable q r).mp hq).1
  · intro r
    rw [finish_states]
    by_cases hr : r = u.state
    · subst hr
      rw [Function.update_self]
      exact hguards.congr (finish_inside hu lock _)
    · rw [Function.update_of_ne hr]
      refine (h.guards r).congr fun j => (finish_inside hu lock r j).trans (and_iff_left_of_imp ?_)
      intro hj hji
      obtain ⟨v, hv, -, hvr⟩ := hj
      rw [hji, hu] at hv
      cases hv
      exact hr hvr.symm
  · intro j v c hv hvp
    rw [finish_uses] at hv
    rw [finish_states]
    rcases Slots.get_set_cases hv with ⟨-, rfl⟩ | ⟨hj, hv⟩
    · cases hvp
    · have hq := h.queued j v c hv hvp
      by_cases hr : v.state = u.state
      · rw [hr, Function.update_self]
        rw [hr] at hq
        exact hids j hq hj
      · rw [Function.update_of_ne hr]
        exact hq

end Change

/-! ## A call comes -/

/-- The invariant but for one object, which a call for the path is about to use. -/
structure Ready (s : State) (path : String) (r : Nat) (o : LockState) : Prop where
  entry : ∀ u ∈ s.uses, u.active = true → Dict.get? s.locks u.path = some u.state
  found : Dict.get? s.locks path = some r
  counted : ∀ q, (if q = r then o else s.states q).users = s.users q
  used : ∀ p q, Dict.get? s.locks p = some q → q ≠ r → 0 < s.users q
  known : ∀ p q, Dict.get? s.locks p = some q → q < s.made
  apart : ∀ p p' q, Dict.get? s.locks p = some q → Dict.get? s.locks p' = some q → p = p'
  guards : ∀ q, (if q = r then o else s.states q).lock.Guards (s.Inside q)
  queued : ∀ (i : Nat) (u : Use) (c : Bool), s.uses[i]? = some u → u.phase = .waiting c →
    i ∈ (if u.state = r then o else s.states u.state).lock.ids

theorem joined_inv {s : State} {path : String} {r : Nat} {o : LockState} (h : Ready s path r o) {lock : AsyncLock Nat}
    {phase : Phase} (hp : phase ≠ .over)
    (hguards : lock.Guards fun j => s.Inside r j ∨ j = s.uses.length ∧ phase = .inside)
    (hids : ∀ j ∈ o.lock.ids, j ∈ lock.ids) (hself : ∀ c, phase = .waiting c → s.uses.length ∈ lock.ids) :
    Inv (s.joined path r o.users lock phase) := by
  have husers : ∀ q, (s.joined path r o.users lock phase).users q = s.users q + if r = q then 1 else 0 := by
    intro q
    show List.countP _ (s.uses ++ [⟨path, r, phase⟩]) = _
    rw [List.countP_append, List.countP_singleton]
    simp [State.users, Use.active, hp]
  have hinside : ∀ q j, (s.joined path r o.users lock phase).Inside q j ↔
      s.Inside q j ∨ j = s.uses.length ∧ phase = .inside ∧ r = q := by
    intro q j
    constructor
    · intro hj
      obtain ⟨v, hv, hvp, hvq⟩ := hj
      rcases Slots.append_cases hv with hv | ⟨hj, rfl⟩
      · exact Or.inl ⟨v, hv, hvp, hvq⟩
      · exact Or.inr ⟨hj, hvp, hvq⟩
    · intro hj
      rcases hj with ⟨v, hv, hvp, hvq⟩ | ⟨rfl, hvp, hvq⟩
      · exact ⟨v, Slots.append_old _ hv, hvp, hvq⟩
      · exact ⟨⟨path, r, phase⟩, List.getElem?_concat_length, hvp, hvq⟩
  have hstate : ∀ q, q ≠ r → (s.joined path r o.users lock phase).states q = s.states q :=
    fun q hq => Function.update_of_ne hq _ _
  have hown : (s.joined path r o.users lock phase).states r = ⟨lock, o.users + 1⟩ := Function.update_self ..
  refine ⟨?_, ?_, ?_, h.known, h.apart, ?_, ?_⟩
  · intro v hv hva
    rcases List.mem_append.mp hv with hv | hv
    · exact h.entry v hv hva
    · rw [List.mem_singleton.mp hv]
      exact h.found
  · intro q
    have hcount := h.counted q
    rw [husers]
    by_cases hq : q = r
    · subst hq
      rw [if_pos rfl] at hcount
      rw [hown, if_pos rfl, ← hcount]
    · rw [if_neg hq] at hcount
      rw [hstate q hq, if_neg (Ne.symm hq), hcount]
      rfl
  · intro p q hget
    rw [husers]
    by_cases hq : q = r
    · rw [if_pos hq.symm]
      omega
    · have hpos := h.used p q hget hq
      omega
  · intro q
    have hq := h.guards q
    by_cases hqr : q = r
    · subst hqr
      rw [hown]
      refine hguards.congr fun j => (hinside q j).trans ?_
      simp
    · rw [if_neg hqr] at hq
      rw [hstate q hqr]
      refine hq.congr fun j => (hinside q j).trans ?_
      simp [Ne.symm hqr]
  · intro j v c hv hvp
    rcases Slots.append_cases hv with hv | ⟨rfl, rfl⟩
    · have hq := h.queued j v c hv hvp
      by_cases hr : v.state = r
      · rw [if_pos hr] at hq
        rw [hr, hown]
        exact hids j hq
      · rw [if_neg hr] at hq
        rw [hstate _ hr]
        exact hq
    · show s.uses.length ∈ ((s.joined path r o.users lock phase).states r).lock.ids
      rw [hown]
      exact hself c hvp

theorem join_inv {s : State} {path : String} {r : Nat} {o : LockState} (h : Ready s path r o) :
    Inv (s.join path r o) := by
  have hlock := h.guards r
  rw [if_pos rfl] at hlock
  unfold State.join
  split
  · rename_i hopen
    refine joined_inv h (by nofun : Phase.inside ≠ .over) ?_ (fun j hj => hj) nofun
    exact (hlock.take hopen s.uses.length).congr fun j => by simp
  · refine joined_inv h (by nofun : Phase.waiting false ≠ .over) ?_ ?_ ?_
    · exact (hlock.wait s.uses.length).congr fun j => by simp
    · intro j hj
      rw [AsyncLock.ids_wait]
      exact List.mem_append_left _ hj
    · intro c _
      rw [AsyncLock.ids_wait]
      exact List.mem_append_right _ (List.mem_singleton_self _)

theorem enter_inv {s : State} (h : Inv s) (path : String) : Inv (s.enter path) := by
  unfold State.enter
  cases hget : Dict.get? s.locks path with
  | some r =>
    have hsame : ∀ q, (if q = r then s.states r else s.states q) = s.states q := by
      intro q
      split
      · rename_i hq
        rw [hq]
      · rfl
    apply join_inv
    refine ⟨h.entry, hget, ?_, fun p q hq _ => h.used p q hq, h.known, h.apart, ?_, ?_⟩
    · intro q
      rw [hsame]
      exact h.counted q
    · intro q
      rw [hsame]
      exact h.guards q
    · intro i u c hu hp
      rw [hsame]
      exact h.queued i u c hu hp
  | none =>
    -- no call uses the number of the new object
    have hne : ∀ u ∈ s.uses, u.active = true → u.state ≠ s.made ∧ u.path ≠ path := by
      intro u hu ha
      have hentry := h.entry u hu ha
      refine ⟨Nat.ne_of_lt (h.known _ _ hentry), fun hpath => ?_⟩
      rw [hpath, hget] at hentry
      cases hentry
    have hnone : s.users s.made = 0 := by
      refine List.countP_eq_zero.mpr fun u hu hx => ?_
      rw [Bool.and_eq_true, beq_iff_eq] at hx
      exact (hne u hu hx.1).1 hx.2
    have hcases : ∀ {p : String} {q : Nat}, Dict.get? (Dict.set s.locks path s.made) p = some q →
        p = path ∧ q = s.made ∨ p ≠ path ∧ Dict.get? s.locks p = some q := by
      intro p q hq
      rcases Dict.get?_set_cases hq with ⟨hp, hq⟩ | ⟨hp, hq⟩
      · exact Or.inl ⟨hp.symm, hq.symm⟩
      · exact Or.inr ⟨Ne.symm hp, hq⟩
    apply join_inv
    refine ⟨?_, Dict.get?_set_self .., ?_, ?_, ?_, ?_, ?_, ?_⟩
    · intro u hu ha
      show Dict.get? (Dict.set s.locks path s.made) u.path = _
      rw [Dict.get?_set_other _ _ (Ne.symm (hne u hu ha).2)]
      exact h.entry u hu ha
    · intro q
      split
      · rename_i hq
        subst hq
        exact hnone.symm
      · exact h.counted q
    · intro p q hq hqr
      rcases hcases hq with ⟨-, hq⟩ | ⟨-, hq⟩
      · exact absurd hq hqr
      · exact h.used p q hq
    · intro p q hq
      rcases hcases hq with ⟨-, rfl⟩ | ⟨-, hq⟩
      · exact Nat.lt_succ_self _
      · exact Nat.lt_succ_of_lt (h.known p q hq)
    · intro p p' q hq hq'
      rcases hcases hq with ⟨rfl, rfl⟩ | ⟨-, hq⟩
      · rcases hcases hq' with ⟨rfl, -⟩ | ⟨-, hq'⟩
        · rfl
        · exact absurd (h.known _ _ hq') (Nat.lt_irrefl _)
      · rcases hcases hq' with ⟨-, rfl⟩ | ⟨-, hq'⟩
        · exact absurd (h.known _ _ hq) (Nat.lt_irrefl _)
        · exact h.apart _ _ _ hq hq'
    · intro q
      split
      · rename_i hq
        subst hq
        refine AsyncLock.guards_free.congr fun j => iff_of_false ?_ not_false
        intro hj
        obtain ⟨u, hu, hp, hr⟩ := hj
        exact (hne u (List.mem_of_getElem? hu) ((active_iff u).mpr (by rw [hp]; nofun))).1 hr
      · exact h.guards q
    · intro i u c hu hp
      have hstate := (hne u (List.mem_of_getElem? hu) ((active_iff u).mpr (by rw [hp]; nofun))).1
      rw [if_neg hstate]
      exact h.queued i u c hu hp

/-! ## Runs -/

theorem start_inv : Inv start :=
  ⟨nofun, fun _ => rfl, nofun, nofun, nofun,
    fun r => AsyncLock.guards_free.congr fun j => by simp [State.Inside, start], nofun⟩

theorem waiting_not_inside {s : State} {i : Nat} {u : Use} {c : Bool} (hu : s.uses[i]? = some u)
    (hp : u.phase = .waiting c) (r : Nat) : ¬ s.Inside r i := by
  intro hi
  obtain ⟨v, hv, hvp, -⟩ := hi
  rw [hu] at hv
  cases hv
  rw [hp] at hvp
  cases hvp

theorem waiting_active {u : Use} {c : Bool} (hp : u.phase = .waiting c) : u.active = true :=
  (active_iff u).mpr (by rw [hp]; nofun)

section Waiting

variable {s : State} {i : Nat} {u : Use} {c : Bool} (h : Inv s) (hu : s.uses[i]? = some u) (hp : u.phase = .waiting c)
include h hu hp

/-- A wait that ends without the lock. -/
theorem give_up_inv {lock : AsyncLock Nat} (hguards : lock.Guards (s.Inside u.state))
    (hids : lock.ids = (s.states u.state).lock.ids.filter (· ≠ i)) : Inv (s.finish i u lock) := by
  apply finish_inv h hu (waiting_active hp)
  · refine hguards.congr fun j => and_iff_left_of_imp ?_
    intro hj hji
    subst hji
    exact waiting_not_inside hu hp _ hj
  · intro j hj hne
    rw [hids, List.mem_filter]
    exact ⟨hj, decide_eq_true hne⟩

/-- A wait that goes on. -/
theorem wait_on_inv {lock : AsyncLock Nat} {d : Bool} (hguards : lock.Guards (s.Inside u.state))
    (hids : lock.ids = (s.states u.state).lock.ids) : Inv (s.move i u lock (.waiting d)) := by
  refine move_inv h hu (waiting_active hp) (by nofun : Phase.waiting d ≠ .over) ?_ ?_ ?_
  · refine hguards.congr fun j => ?_
    by_cases hj : j = i
    · subst hj
      rw [if_pos rfl]
      exact iff_of_false nofun (waiting_not_inside hu hp _)
    · rw [if_neg hj]
  · intro j hj _
    rw [hids]
    exact hj
  · intro _ _
    rw [hids]
    exact h.queued i u c hu hp

/-- A waiter takes the lock. -/
theorem resumed_inv (hwoken : (s.states u.state).lock.future? i = some .woken) :
    Inv (s.move i u ((s.states u.state).lock.resume i) .inside) := by
  refine move_inv h hu (waiting_active hp) (by nofun : Phase.inside ≠ .over) ?_ ?_ nofun
  · refine ((h.guards u.state).resume hwoken).congr fun j => ?_
    by_cases hj : j = i
    · simp [hj]
    · simp [hj]
  · intro j hj hne
    rw [AsyncLock.ids_resume, List.mem_filter]
    exact ⟨hj, decide_eq_true hne⟩

end Waiting

theorem leave_inv {s : State} {i : Nat} {u : Use} (h : Inv s) (hu : s.uses[i]? = some u) (hp : u.phase = .inside) :
    Inv (s.finish i u (s.states u.state).lock.release) := by
  apply finish_inv h hu ((active_iff u).mpr (by rw [hp]; nofun))
  · exact (h.guards u.state).release ⟨u, hu, hp, rfl⟩
  · intro j hj _
    rw [AsyncLock.ids_release]
    exact hj

theorem step_inv {s s' : State} {e : Event} (h : Inv s) (hst : step s e = some s') : Inv s' := by
  cases e with
  | enter resolved =>
    cases resolved with
    | none =>
      cases hst
      exact h
    | some path =>
      cases hst
      exact enter_inv h path
  | cancel i =>
    obtain ⟨u, hu, hst⟩ := Option.bind_eq_some_iff.mp hst
    simp only at hst
    split at hst
    · rename_i c hp hf
      cases hst
      rw [hp]
      exact wait_on_inv h hu hp ((h.guards u.state).cancel i) (AsyncLock.ids_cancel ..)
    · rename_i c f hp hf
      cases hst
      exact wait_on_inv h hu hp (h.guards u.state) rfl
    · cases hst
  | resume i =>
    obtain ⟨u, hu, hst⟩ := Option.bind_eq_some_iff.mp hst
    simp only at hst
    split at hst
    · rename_i hp hf
      cases hst
      exact resumed_inv h hu hp hf
    · rename_i hp hf
      cases hst
      exact give_up_inv h hu hp ((h.guards u.state).unwind i) (AsyncLock.ids_unwind ..)
    · rename_i c hp hf
      cases hst
      exact give_up_inv h hu hp ((h.guards u.state).unwind i) (AsyncLock.ids_unwind ..)
    · cases hst
  | throw i =>
    obtain ⟨u, hu, hst⟩ := Option.bind_eq_some_iff.mp hst
    split at hst
    · rename_i c hp
      cases hst
      exact give_up_inv h hu hp ((h.guards u.state).remove i) (AsyncLock.ids_remove ..)
    · cases hst
  | leave i =>
    obtain ⟨u, hu, hst⟩ := Option.bind_eq_some_iff.mp hst
    split at hst
    · rename_i hp
      cases hst
      exact leave_inv h hu hp
    · cases hst

/-- Over any calls in any interleaving, with any exceptions and cancellations: at most one
    is inside for a path at a time, those for one path have one lock, and a path that is
    neither used nor waited for has no entry. -/
theorem mutations_are_serialised {events : List Event} {s : State} (h : machine.exec start events = some s) :
    Serialised s :=
  have hinv : Inv s := Machine.exec_inv (M := machine) (A := fun _ => True) (P := Inv)
    (fun _ _ _ hi _ hst => step_inv hi hst) start_inv (fun _ _ => trivial) h
  hinv.serialised

/-- Two calls for one file, of which the second is cancelled as it is woken, and a third. -/
def threeCalls : List Event :=
  [.enter (some "/a"), .enter (some "/a"), .leave 0, .cancel 1, .enter (some "/a"), .resume 1, .resume 2]

theorem three_calls_serialised : ∃ s, machine.exec start threeCalls = some s ∧ Serialised s := by
  have hrun : (machine.exec start threeCalls).isSome = true := rfl
  obtain ⟨s, hs⟩ := Option.isSome_iff_exists.mp hrun
  exact ⟨s, hs, mutations_are_serialised hs⟩

end Errand.Runner.MutationQueue

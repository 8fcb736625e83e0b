import Errand.Lib.Machine
import Errand.Server.RunTask

/-
  Errand.Server.Lifecycle — a board of tasks under everything that moves them by itself,
  and the delete route (`delete_task`, errand/main.py).

  Actors. The dispatcher gives a pending task a run; runs of any number of tasks, several
  of one task among them, take their steps (Errand.Server.RunTask) in any order, each with
  a heartbeat that may fail or stop; zombie recovery and archiving each load rows without
  locking them and commit later what they made of them; promotion takes due rows under a
  lock, so it is one step; a process dies with its runs. A batch is its rows one by one.
  `succs` counts the next occurrences a task's runs have created.

  Proved:
  - `deletion_final_iff`: after a delete the task stays deleted, and gets no further next
    occurrence, exactly when no run of it may still commit and no sweep has it loaded.
  - `one_successor`: a task gets at most one next occurrence, in every run in which no
    task goes back on the schedule while a run of it may still complete it, or after its
    next occurrence was created.
  - `a_run_undeletes`, `a_zombie_completes_too`: runs without these conditions.
-/

namespace Errand.Server.Lifecycle

open Errand.Lib Errand.Server.Tasks Errand.Server.RunTask

structure Active where
  task : DequeuedTask
  pc : Pc
  deriving DecidableEq, Repr

structure St where
  now : Timestamp
  db : Db
  runs : Nat → Option Active
  nextRun : Nat
  /-- Rows a zombie sweep has loaded and not committed yet. -/
  zombies : List Zombie
  /-- Completed tasks `archive_completed_tasks` has loaded and not committed yet. -/
  archiving : List Nat
  succs : Nat → Nat

def start (now : Timestamp) (db : Db) : St := ⟨now, db, fun _ => none, 0, [], [], fun _ => 0⟩

inductive Ev where
  | tick (now : Timestamp)
  | create (t : Task)
  | dispatch (id : Nat)
  | run (r : Nat) (a : Answer)
  | heartbeat (r : Nat)
  | crash (r : Nat)
  | promote (id : Nat)
  | zombieSelect (id : Nat)
  | zombieCommit (z : Zombie)
  | zombieDrop (z : Zombie)
  | archiveSelect (id : Nat) (cutoff : Timestamp)
  | archiveCommit (id : Nat)
  | delete (id : Nat)
  deriving Repr

/-- `archive_completed_tasks` (scheduler.py) on one row. -/
def archive (now : Timestamp) (db : Db) (id : Nat) : Db :=
  db.modify id fun t => { t with status := .archived, updatedAt := now }

theorem archive_status {now : Timestamp} {db : Db} {id : Nat} (h : db.has id) :
    (archive now db id).status = Function.update db.status id (some .archived) := status_modify (fun _ => rfl) h

def beating : Pc → Bool
  | .waiting | .done => false
  | _ => true

def countSuccessor (succs : Nat → Nat) (id : Nat) : Option Commit → Nat → Nat
  | some (.successor _) => Function.update succs id (succs id + 1)
  | _ => succs

section Steps

variable (extractJson : String → Option String) (validate : String → Option TaskRunnerOutput)

def step (s : St) : Ev → Option St
  | .tick now => if s.now ≤ now then some { s with now := now } else none
  | .create t => some { s with db := s.db.insert t }
  | .dispatch id =>
    (s.db.get id).bind fun t =>
      if t.status = .pending then
        some { s with
          db := Tasks.dispatch s.now s.db id
          runs := Function.update s.runs s.nextRun (some ⟨.fromOrm id t, .waiting⟩)
          nextRun := s.nextRun + 1 }
      else none
  | .run r a =>
    (s.runs r).bind fun x =>
      (runStep extractJson validate s.now s.db x.task x.pc a).map fun o =>
        { s with
          db := o.db
          runs := Function.update s.runs r (some ⟨x.task, o.pc⟩)
          succs := countSuccessor s.succs x.task.id o.commit }
  | .heartbeat r =>
    (s.runs r).bind fun x =>
      if beating x.pc then some { s with db := Tasks.heartbeat s.now s.db x.task.id } else none
  | .crash r => some { s with runs := Function.update s.runs r none }
  | .promote id =>
    (s.db.get id).bind fun t =>
      if due s.now t then some { s with db := Tasks.promote s.now s.db id } else none
  | .zombieSelect id =>
    (s.db.get id).bind fun t =>
      if stale s.now t then some { s with zombies := ⟨id, t, s.now⟩ :: s.zombies } else none
  | .zombieCommit z =>
    if z ∈ s.zombies then some { s with db := recoverZombie s.db z, zombies := s.zombies.erase z } else none
  | .zombieDrop z => some { s with zombies := s.zombies.erase z }
  | .archiveSelect id cutoff =>
    (s.db.get id).bind fun t =>
      if t.status = .completed ∧ t.updatedAt < cutoff then some { s with archiving := id :: s.archiving } else none
  | .archiveCommit id =>
    if id ∈ s.archiving then
      some { s with db := archive s.now s.db id, archiving := s.archiving.erase id }
    else none
  | .delete id =>
    if (s.db.get id).isSome then some { s with db := deleteTask s.now s.db id } else none

def board : Machine St Ev := ⟨fun s => ∃ now db, s = start now db, step extractJson validate⟩

end Steps

/-! ## What a step can do -/

/-- What a step of a run can do. -/
structure Stepped (s : St) (x : Active) (a : Answer) (o : Outcome) : Prop where
  effect : Effect s.now s.db x.task x.pc o.db o.commit
  commit : o.commit = commitOf s.now s.db x.task x.pc a
  able : able o.pc = true → able x.pc = true ∧ ∀ n, o.commit ≠ some (.successor n)
  spent : spent x.pc = true → spent o.pc = true

/-- What each step does, with what held before it. -/
inductive Change (s : St) : Ev → St → Prop
  | tick {now : Timestamp} : Change s (.tick now) { s with now := now }
  | create {t : Task} : Change s (.create t) { s with db := s.db.insert t }
  | dispatch {id : Nat} {t : Task} : s.db.get id = some t → t.status = .pending →
      Change s (.dispatch id) { s with
        db := Tasks.dispatch s.now s.db id
        runs := Function.update s.runs s.nextRun (some ⟨.fromOrm id t, .waiting⟩)
        nextRun := s.nextRun + 1 }
  | run {r : Nat} {a : Answer} {x : Active} {o : Outcome} : s.runs r = some x → Stepped s x a o →
      Change s (.run r a) { s with
        db := o.db
        runs := Function.update s.runs r (some ⟨x.task, o.pc⟩)
        succs := countSuccessor s.succs x.task.id o.commit }
  | heartbeat {r : Nat} {x : Active} : s.runs r = some x →
      Change s (.heartbeat r) { s with db := Tasks.heartbeat s.now s.db x.task.id }
  | crash {r : Nat} : Change s (.crash r) { s with runs := Function.update s.runs r none }
  | promote {id : Nat} {t : Task} : s.db.get id = some t → t.status = .scheduled →
      Change s (.promote id) { s with db := Tasks.promote s.now s.db id }
  | zombieSelect {id : Nat} {t : Task} : s.db.get id = some t → t.status = .running →
      Change s (.zombieSelect id) { s with zombies := ⟨id, t, s.now⟩ :: s.zombies }
  | zombieCommit {z : Zombie} : z ∈ s.zombies →
      Change s (.zombieCommit z) { s with db := recoverZombie s.db z, zombies := s.zombies.erase z }
  | zombieDrop {z : Zombie} : Change s (.zombieDrop z) { s with zombies := s.zombies.erase z }
  | archiveSelect {id : Nat} {cutoff : Timestamp} {t : Task} : s.db.get id = some t → t.status = .completed →
      Change s (.archiveSelect id cutoff) { s with archiving := id :: s.archiving }
  | archiveCommit {id : Nat} : id ∈ s.archiving →
      Change s (.archiveCommit id) { s with db := archive s.now s.db id, archiving := s.archiving.erase id }
  | delete {id : Nat} : s.db.has id → Change s (.delete id) { s with db := deleteTask s.now s.db id }

theorem step_change {extractJson : String → Option String} {validate : String → Option TaskRunnerOutput} {s s' : St}
    {e : Ev} (h : step extractJson validate s e = some s') : Change s e s' := by
  cases e with
  | tick now =>
    simp only [step] at h
    split at h
    · cases h; exact .tick
    · cases h
  | create t => cases h; exact .create
  | dispatch id =>
    obtain ⟨t, ht, h⟩ := Option.bind_eq_some_iff.mp h
    split at h
    · rename_i hp; cases h; exact .dispatch ht hp
    · cases h
  | run r a =>
    obtain ⟨x, hx, h⟩ := Option.bind_eq_some_iff.mp h
    obtain ⟨o, ho, rfl⟩ := Option.map_eq_some_iff.mp h
    exact .run hx ⟨runStep_cases ho, runStep_commitOf ho, runStep_able ho, fun hs => (runStep_spent ho hs).1⟩
  | heartbeat r =>
    obtain ⟨x, hx, h⟩ := Option.bind_eq_some_iff.mp h
    split at h
    · cases h; exact .heartbeat hx
    · cases h
  | crash r => cases h; exact .crash
  | promote id =>
    obtain ⟨t, ht, h⟩ := Option.bind_eq_some_iff.mp h
    split at h
    · rename_i hd; cases h; exact .promote ht (due_scheduled hd)
    · cases h
  | zombieSelect id =>
    obtain ⟨t, ht, h⟩ := Option.bind_eq_some_iff.mp h
    split at h
    · rename_i hs; cases h; exact .zombieSelect ht (stale_running hs)
    · cases h
  | zombieCommit z =>
    simp only [step] at h
    split at h
    · rename_i hz; cases h; exact .zombieCommit hz
    · cases h
  | zombieDrop z => cases h; exact .zombieDrop
  | archiveSelect id cutoff =>
    obtain ⟨t, ht, h⟩ := Option.bind_eq_some_iff.mp h
    split at h
    · rename_i hc; cases h; exact .archiveSelect ht hc.1
    · cases h
  | archiveCommit id =>
    simp only [step] at h
    split at h
    · rename_i hi; cases h; exact .archiveCommit hi
    · cases h
  | delete id =>
    simp only [step] at h
    split at h
    · rename_i hi; cases h; exact .delete hi
    · cases h

theorem countSuccessor_other {succs : Nat → Nat} {id j : Nat} {c : Option Commit} (h : j ≠ id) :
    countSuccessor succs id c j = succs j := by
  unfold countSuccessor
  split
  · exact Function.update_of_ne h ..
  · rfl

theorem countSuccessor_self (succs : Nat → Nat) (id : Nat) (c : Option Commit) :
    countSuccessor succs id c id = succs id ∧ (∀ n, c ≠ some (.successor n)) ∨
      countSuccessor succs id c id = succs id + 1 ∧ ∃ n, c = some (.successor n) := by
  unfold countSuccessor
  split
  · exact .inr ⟨Function.update_self .., _, rfl⟩
  · rename_i hn
    exact .inl ⟨rfl, fun n hc => hn n hc⟩

/-- What is loaded or running belongs to a row that exists. -/
structure Rows (s : St) : Prop where
  runs : ∀ r x, s.runs r = some x → s.db.has x.task.id
  zombies : ∀ z ∈ s.zombies, z.loaded.status = .running ∧ s.db.has z.id
  archiving : ∀ id ∈ s.archiving, s.db.has id
  succs : ∀ id, s.succs id ≠ 0 → s.db.has id

/-- The ways a task's status moves. -/
inductive Move (s : St) : Ev → Nat → Status → Prop
  | create {t : Task} : Move s (.create t) s.db.nextId t.status
  | dispatch {id : Nat} : s.db.status id = some .pending → Move s (.dispatch id) id .running
  | promote {id : Nat} : s.db.status id = some .scheduled → Move s (.promote id) id .pending
  | run {r : Nat} {a : Answer} {x : Active} {c : Commit} {st : Status} : s.runs r = some x →
      commitOf s.now s.db x.task x.pc a = some c → c.status = some st → (c = .retry ∨ st = .completed ∨ st = .review) →
      Move s (.run r a) x.task.id st
  | succeed {r : Nat} {a : Answer} : Move s (.run r a) s.db.nextId .scheduled
  | recover {z : Zombie} : z ∈ s.zombies → Move s (.zombieCommit z) z.id z.target
  | archive {id : Nat} : id ∈ s.archiving → Move s (.archiveCommit id) id .archived
  | delete {id : Nat} : Move s (.delete id) id .deleted

/-- The statuses after a step: all as they were, or one moved. -/
theorem Change.status {s s' : St} {e : Ev} (h : Change s e s') (hw : Rows s) :
    s'.db.status = s.db.status ∨
      ∃ id st, Move s e id st ∧ s'.db.status = Function.update s.db.status id (some st) := by
  cases h with
  | create => exact .inr ⟨_, _, .create, status_insert ..⟩
  | dispatch ht hp =>
    exact .inr ⟨_, _, .dispatch (by simp [Db.status, ht, hp]), status_modify (fun _ => rfl) (by simp [Db.has, ht])⟩
  | run hx hs =>
    rename_i r a x o
    obtain ⟨db', pc', c⟩ := o
    obtain ⟨heff, hcom, -, -⟩ := hs
    cases heff with
    | nothing => exact .inl rfl
    | committed ht =>
      rename_i c
      cases hc : c.status with
      | none =>
        cases c with
        | successor n =>
          obtain ⟨⟨t, rfl, hst⟩, -⟩ := transaction_successor ht
          exact .inr ⟨_, _, .succeed, hst ▸ status_insert ..⟩
        | _ => cases hc
      | some st =>
        obtain ⟨f, rfl, hf⟩ := transaction_modify ht hc
        exact .inr ⟨_, _, .run hx hcom.symm hc (transaction_queues ht hc), status_modify hf (hw.runs r x hx)⟩
  | heartbeat hx => left; funext j; exact heartbeat_status ..
  | promote ht hd =>
    exact .inr ⟨_, _, .promote (by simp [Db.status, ht, hd]), status_modify (fun _ => rfl) (by simp [Db.has, ht])⟩
  | zombieCommit hz => exact .inr ⟨_, _, .recover hz, recoverZombie_status (hw.zombies _ hz).1 (hw.zombies _ hz).2⟩
  | archiveCommit hi => exact .inr ⟨_, _, .archive hi, status_modify (fun _ => rfl) (hw.archiving _ hi)⟩
  | delete hi => exact .inr ⟨_, _, .delete, status_modify (fun _ => rfl) hi⟩
  | tick | crash | zombieSelect | zombieDrop | archiveSelect => exact .inl rfl

/-- Where the run under a number comes from: it was there, it moved on, or a pending task
    was dispatched under it. -/
inductive From (s : St) : Ev → Nat → Active → Prop
  | kept {e : Ev} {r : Nat} {x : Active} : s.runs r = some x → From s e r x
  | stepped {r : Nat} {a : Answer} {x : Active} {o : Outcome} : s.runs r = some x → Stepped s x a o →
      From s (.run r a) r ⟨x.task, o.pc⟩
  | dispatched {id : Nat} {t : Task} : s.db.status id = some .pending →
      From s (.dispatch id) s.nextRun ⟨.fromOrm id t, .waiting⟩

theorem Change.runs {s s' : St} {e : Ev} (h : Change s e s') {r : Nat} {y : Active} (hy : s'.runs r = some y) :
    From s e r y := by
  cases h with
  | dispatch ht hp =>
    by_cases e : r = s.nextRun
    · subst e
      simp only [Function.update_self, Option.some.injEq] at hy
      subst hy
      exact .dispatched (by simp [Db.status, ht, hp])
    · exact .kept (by simpa [Function.update_of_ne e] using hy)
  | run hx hs =>
    rename_i q a x o
    by_cases e : r = q
    · subst e
      simp only [Function.update_self, Option.some.injEq] at hy
      subst hy
      exact .stepped hx hs
    · exact .kept (by simpa [Function.update_of_ne e] using hy)
  | crash =>
    rename_i q
    by_cases e : r = q
    · subst e; simp at hy
    · exact .kept (by simpa [Function.update_of_ne e] using hy)
  | _ => exact .kept hy

theorem Change.has {s s' : St} {e : Ev} (h : Change s e s') {id : Nat} (hi : s.db.has id) : s'.db.has id := by
  cases h with
  | create => exact has_insert _ _ hi
  | run hx hs =>
    rename_i r a x o
    obtain ⟨db', pc', c⟩ := o
    cases hs.effect with
    | nothing => exact hi
    | committed ht =>
      rename_i c
      cases hc : c.status with
      | none =>
        cases c with
        | successor n =>
          obtain ⟨⟨t, rfl, -⟩, -⟩ := transaction_successor ht
          exact has_insert _ _ hi
        | _ => cases hc
      | some st =>
        obtain ⟨f, rfl, -⟩ := transaction_modify ht hc
        exact has_modify _ _ f hi
  | tick | crash | zombieSelect | zombieDrop | archiveSelect => exact hi
  | _ => exact has_modify _ _ _ hi

/-- A count goes up with a run's commit of a next occurrence, and only so. -/
theorem Change.succs {s s' : St} {e : Ev} (h : Change s e s') (id : Nat) :
    s'.succs id = s.succs id ∨
      s'.succs id = s.succs id + 1 ∧ ∃ r x o n, s.runs r = some x ∧ x.task.id = id ∧ o.commit = some (.successor n) ∧
        (∃ a, Stepped s x a o) ∧ s'.runs = Function.update s.runs r (some ⟨x.task, o.pc⟩) := by
  cases h with
  | run hx hs =>
    rename_i r a x o
    by_cases e : id = x.task.id
    · subst e
      rcases countSuccessor_self s.succs x.task.id o.commit with ⟨heq, -⟩ | ⟨heq, n, hn⟩
      · exact .inl heq
      · exact .inr ⟨heq, r, x, o, n, hx, rfl, hn, ⟨a, hs⟩, rfl⟩
    · exact .inl (countSuccessor_other e)
  | _ => exact .inl rfl

theorem Change.rows {s s' : St} {e : Ev} (h : Change s e s') (hw : Rows s) : Rows s' := by
  refine ⟨fun r y hy => ?_, fun z hz => ?_, fun id hi => ?_, fun id hi => ?_⟩
  · cases h.runs hy with
    | kept hx => exact h.has (hw.runs r y hx)
    | stepped hx hs =>
      have hx := hw.runs r _ hx
      exact h.has hx
    | dispatched hp => exact h.has (has_of_status hp)
  · have old : z ∈ s.zombies → z.loaded.status = .running ∧ s'.db.has z.id :=
      fun hz => ⟨(hw.zombies z hz).1, h.has (hw.zombies z hz).2⟩
    cases h with
    | zombieSelect ht hr =>
      rcases List.mem_cons.mp hz with rfl | hz
      · exact ⟨hr, by simp [Db.has, ht]⟩
      · exact old hz
    | zombieCommit _ => exact old (List.mem_of_mem_erase hz)
    | zombieDrop => exact old (List.mem_of_mem_erase hz)
    | _ => exact old hz
  · have old : id ∈ s.archiving → s'.db.has id := fun hi => h.has (hw.archiving id hi)
    cases h with
    | archiveSelect ht _ =>
      rcases List.mem_cons.mp hi with rfl | hi
      · simp [Db.has, ht]
      · exact old hi
    | archiveCommit _ => exact old (List.mem_of_mem_erase hi)
    | _ => exact old hi
  · rcases h.succs id with heq | ⟨-, r, x, o, n, hx, rfl, -⟩
    · rw [heq] at hi
      exact h.has (hw.succs id hi)
    · exact h.has (hw.runs r x hx)

variable {extractJson : String → Option String} {validate : String → Option TaskRunnerOutput}

theorem rows_start (now : Timestamp) (db : Db) : Rows (start now db) := by
  refine ⟨?_, ?_, ?_, ?_⟩ <;> simp [start]

theorem rows {s : St} (h : (board extractJson validate).Reach s) : Rows s :=
  h.inv (fun s (hi : ∃ now db, s = start now db) => by obtain ⟨now, db, rfl⟩ := hi; exact rows_start now db)
    fun s e s' hw (hst : step extractJson validate s e = some s') => (step_change hst).rows hw

/-! ## Deletion -/

/-- Nothing that could still write to the task is under way. -/
structure Detached (s : St) (id : Nat) : Prop where
  runs : ∀ r x, s.runs r = some x → x.task.id = id → spent x.pc = true
  zombies : ∀ z ∈ s.zombies, z.id ≠ id
  archiving : id ∉ s.archiving

/-- From here on the task stays deleted and gets no further next occurrence, whatever
    happens. -/
def Final (extractJson : String → Option String) (validate : String → Option TaskRunnerOutput) (s : St) (id : Nat) :
    Prop :=
  ∀ es s', (board extractJson validate).exec s es = some s' →
    s'.db.status id = some .deleted ∧ s'.succs id = s.succs id

theorem Change.keeps_deleted {s s' : St} {e : Ev} {id : Nat} (h : Change s e s') (hw : Rows s) (hd : Detached s id)
    (hs : s.db.status id = some .deleted) : s'.db.status id = some .deleted := by
  rcases h.status hw with heq | ⟨j, st, hm, heq⟩
  · rw [heq, hs]
  · rw [heq]
    by_cases e : id = j
    · subst e
      rw [Function.update_self]
      cases hm with
      | create => exact absurd (has_of_status hs) (not_has_nextId _)
      | succeed => exact absurd (has_of_status hs) (not_has_nextId _)
      | dispatch hp => rw [hs] at hp; cases hp
      | promote hp => rw [hs] at hp; cases hp
      | run hx hc _ _ => simp [commitOf, transaction_spent (hd.runs _ _ hx rfl)] at hc
      | recover hz => exact absurd rfl (hd.zombies _ hz)
      | archive hi => exact absurd hi hd.archiving
      | delete => rfl
    · rw [Function.update_of_ne e, hs]

theorem Change.keeps_detached {s s' : St} {e : Ev} {id : Nat} (h : Change s e s') (hd : Detached s id)
    (hs : s.db.status id = some .deleted) : Detached s' id := by
  refine ⟨fun r y hy hid => ?_, fun z hz => ?_, fun hi => ?_⟩
  · cases h.runs hy with
    | kept hx => exact hd.runs r y hx hid
    | stepped hx hst => exact hst.spent (hd.runs r _ hx hid)
    | dispatched hp =>
      rw [← hid] at hs
      exact absurd (hp.symm.trans hs) (by simp)
  · cases h with
    | zombieSelect ht hr =>
      rcases List.mem_cons.mp hz with rfl | hz
      · intro h₁
        subst h₁
        simp [Db.status, ht, hr] at hs
      · exact hd.zombies z hz
    | zombieCommit _ => exact hd.zombies z (List.mem_of_mem_erase hz)
    | zombieDrop => exact hd.zombies z (List.mem_of_mem_erase hz)
    | _ => exact hd.zombies z hz
  · cases h with
    | archiveSelect ht hc =>
      rcases List.mem_cons.mp hi with rfl | hi
      · simp [Db.status, ht, hc] at hs
      · exact hd.archiving hi
    | archiveCommit _ => exact hd.archiving (List.mem_of_mem_erase hi)
    | _ => exact hd.archiving hi

theorem Change.keeps_succs {s s' : St} {e : Ev} {id : Nat} (h : Change s e s') (hd : Detached s id) :
    s'.succs id = s.succs id := by
  rcases h.succs id with heq | ⟨-, r, x, o, n, hx, hid, hn, ⟨a, hst⟩, -⟩
  · exact heq
  · have hc := hst.commit
    rw [hn] at hc
    simp [commitOf, transaction_spent (hd.runs r x hx hid)] at hc

theorem final_of_detached {s : St} {id : Nat} (hw : Rows s) (hd : Detached s id) (hs : s.db.status id = some .deleted) :
    Final extractJson validate s id := by
  intro es s' he
  have := Machine.exec_inv (M := board extractJson validate) (A := fun _ => True)
    (P := fun t => Rows t ∧ Detached t id ∧ t.db.status id = some .deleted ∧ t.succs id = s.succs id)
    (fun t e t' ⟨hw, hd, hs, hn⟩ _ (hst : step extractJson validate t e = some t') => by
      have hc := step_change hst
      exact ⟨hc.rows hw, hc.keeps_detached hd hs, hc.keeps_deleted hw hd hs, (hc.keeps_succs hd).trans hn⟩)
    ⟨hw, hd, hs, rfl⟩ (fun _ _ => trivial) he
  exact ⟨this.2.2.1, this.2.2.2⟩

/-! A run, a sweep or an archiver that still has the task in hand writes over the deletion. -/

def Escapes (extractJson : String → Option String) (validate : String → Option TaskRunnerOutput) (s : St) (id : Nat) :
    Prop :=
  ∃ es s', (board extractJson validate).exec s es = some s' ∧ s'.db.status id ≠ some .deleted

theorem Escapes.after {s s' : St} {e : Ev} {id : Nat} (hst : step extractJson validate s e = some s')
    (h : Escapes extractJson validate s' id) : Escapes extractJson validate s id := by
  obtain ⟨es, s'', he, hn⟩ := h
  exact ⟨e :: es, s'', ((board extractJson validate).exec_cons (s := s) hst es).trans he, hn⟩

theorem Escapes.now {s s' : St} {e : Ev} {id : Nat} (hst : step extractJson validate s e = some s')
    (hn : s'.db.status id ≠ some .deleted) : Escapes extractJson validate s id :=
  .after hst ⟨[], s', rfl, hn⟩

/-- The state after a step of the run `r`. -/
def stepped (s : St) (r : Nat) (x : Active) (o : Outcome) : St :=
  { s with
    db := o.db
    runs := Function.update s.runs r (some ⟨x.task, o.pc⟩)
    succs := countSuccessor s.succs x.task.id o.commit }

theorem step_run {s : St} {r : Nat} {x : Active} {a : Answer} {o : Outcome} (hx : s.runs r = some x)
    (ho : runStep extractJson validate s.now s.db x.task x.pc a = some o) :
    step extractJson validate s (.run r a) = some (stepped s r x o) := by
  simp [step, hx, ho, stepped]

/-- A point whose transaction gives the task a status of its own. -/
theorem escapes_commit {s : St} {r : Nat} {x : Active} {db' : Db} {c : Commit} {st : Status} (hx : s.runs r = some x)
    (hh : s.db.has x.task.id) (ht : transaction s.now s.db x.task x.pc = some (db', c)) (hc : c.status = some st) :
    Escapes extractJson validate s x.task.id := by
  have ho : runStep extractJson validate s.now s.db x.task x.pc .ok = some ⟨db', next x.task x.pc, some c⟩ := by
    cases hpc : x.pc with
    | rescheduling snapshot interval =>
      rw [hpc] at ht
      simp only [transaction] at ht
      split at ht
      · cases ht
      · cases ht; cases hc
    | recording | retryWrite | gitReview => rw [hpc] at ht; simp [runStep, proceed, ht]
    | _ => rw [hpc] at ht; cases ht
  refine .now (step_run hx ho) ?_
  obtain ⟨f, rfl, hf⟩ := transaction_modify ht hc
  simp only [stepped, status_modify hf hh, Function.update_self, ne_eq, Option.some.injEq]
  intro hp
  subst hp
  rcases transaction_queues ht hc with rfl | h | h
  · cases hc
  · cases h
  · cases h

theorem escapes_retryRead {s : St} {r : Nat} {task : DequeuedTask} (h : Handler) (output logs : Option String)
    (hx : s.runs r = some ⟨task, .retryRead h output logs⟩) (hh : s.db.has task.id) :
    Escapes extractJson validate s task.id := by
  obtain ⟨t, ht⟩ := Option.isSome_iff_exists.mp hh
  have ho : runStep extractJson validate s.now s.db task (.retryRead h output logs) (.maxAttempts .unresolved) =
      some ⟨s.db, .retryWrite h t.retryCount defaultMaxRetryAttempts output logs, none⟩ := by
    simp [runStep, ht, getMaxRetryAttempts]
  refine .after (step_run hx ho) ?_
  have hx' : (stepped s r ⟨task, .retryRead h output logs⟩
      ⟨s.db, .retryWrite h t.retryCount defaultMaxRetryAttempts output logs, none⟩).runs r =
      some ⟨task, .retryWrite h t.retryCount defaultMaxRetryAttempts output logs⟩ := by simp [stepped]
  by_cases he : exhausted t.retryCount defaultMaxRetryAttempts
  · exact escapes_commit hx' hh (by simp only [transaction, he]; rfl) rfl
  · exact escapes_commit hx' hh (by simp only [transaction, he]; rfl) rfl

theorem escapes_body {s : St} {r : Nat} {x : Active} (hx : s.runs r = some x) (hb : handler x.pc = some .body)
    (hh : s.db.has x.task.id) : Escapes extractJson validate s x.task.id := by
  have ho : runStep extractJson validate s.now s.db x.task x.pc (.raises false) =
      some ⟨s.db, .retryRead .failed none none, none⟩ := by simp [runStep, hb, land, raised]
  refine .after (step_run hx ho) ?_
  exact escapes_retryRead (r := r) .failed none none (by simp [stepped]) hh

theorem escapes_run {s : St} {r : Nat} {x : Active} (hx : s.runs r = some x) (hp : spent x.pc = false)
    (hh : s.db.has x.task.id) : Escapes extractJson validate s x.task.id := by
  obtain ⟨task, pc⟩ := x
  obtain ⟨t, ht⟩ := Option.isSome_iff_exists.mp hh
  cases pc with
  | waiting =>
    refine .after (step_run (a := .entered) (o := ⟨s.db, .processing, none⟩) hx rfl) ?_
    exact escapes_body (r := r) (x := ⟨task, .processing⟩) (by simp [stepped]) rfl hh
  | processing | recording | recorded | rescheduling | rescheduled => exact escapes_body hx rfl hh
  | retryRead h output logs => exact escapes_retryRead h output logs hx hh
  | retryWrite h rc n output logs =>
    by_cases he : exhausted rc n
    · exact escapes_commit hx hh (by simp only [transaction, he]; rfl) rfl
    · exact escapes_commit hx hh (by simp only [transaction, he]; rfl) rfl
  | retried h =>
    obtain rfl : h = .body := by simpa [spent] using hp
    exact escapes_body hx rfl hh
  | gitRead error =>
    by_cases hr : t.retryCount ≥ maxGitRetries
    · refine .after (step_run (a := .ok) (o := ⟨s.db, .gitReview error, none⟩) hx
        (by simp only at ht; simp [runStep, proceed, ht, hr])) ?_
      exact escapes_commit (r := r) (x := ⟨task, .gitReview error⟩) (by simp [stepped]) hh rfl rfl
    · refine .after (step_run (a := .ok) (o := ⟨s.db, .retryRead .git (some error) none, none⟩) hx
        (by simp only at ht; simp [runStep, proceed, ht, hr])) ?_
      exact escapes_retryRead (r := r) .git (some error) none (by simp [stepped]) hh
  | gitReview error => exact escapes_commit hx hh rfl rfl
  | gitReviewed | done => cases hp

theorem escapes_of_not_detached (extractJson : String → Option String) (validate : String → Option TaskRunnerOutput)
    {s : St} {id : Nat} (hw : Rows s) (hd : ¬ Detached s id) :
    Escapes extractJson validate s id := by
  by_cases hr : ∀ r x, s.runs r = some x → x.task.id = id → spent x.pc = true
  · by_cases hz : ∀ z ∈ s.zombies, z.id ≠ id
    · by_cases ha : id ∈ s.archiving
      · have hst : step extractJson validate s (.archiveCommit id) =
            some { s with db := archive s.now s.db id, archiving := s.archiving.erase id } := by simp [step, ha]
        refine .now hst ?_
        simp [archive_status (hw.archiving id ha)]
      · exact absurd ⟨hr, hz, ha⟩ hd
    · push Not at hz
      obtain ⟨z, hz, rfl⟩ := hz
      have hst : step extractJson validate s (.zombieCommit z) =
          some { s with db := recoverZombie s.db z, zombies := s.zombies.erase z } := by simp [step, hz]
      refine .now hst ?_
      simp only [recoverZombie_status (hw.zombies z hz).1 (hw.zombies z hz).2, Function.update_self, ne_eq,
        Option.some.injEq, Zombie.target]
      split <;> simp
  · push Not at hr
    obtain ⟨r, x, hx, rfl, hp⟩ := hr
    exact escapes_run hx (by simpa using hp) (hw.runs r x hx)

/-- No run of the task can complete it any more, and none has. -/
def Quiet (s : St) (id : Nat) : Prop :=
  (∀ r x, s.runs r = some x → x.task.id = id → able x.pc = false) ∧ s.succs id = 0

/-- The step puts the task back on the schedule. -/
def requeues (s : St) : Ev → Nat → Prop
  | .run r a, id => ∃ x, s.runs r = some x ∧ x.task.id = id ∧ commitOf s.now s.db x.task x.pc a = some .retry
  | .zombieCommit z, id => z.id = id ∧ z.target = .scheduled
  | _, _ => False

/-- A task goes back on the schedule only when no run may still complete it and none has
    created its next occurrence. -/
def Unsuperseded (s : St) (e : Ev) : Prop := ∀ id, requeues s e id → Quiet s id

structure OneRun (s : St) : Prop where
  rows : Rows s
  one : ∀ q r x y, s.runs q = some x → s.runs r = some y → x.task.id = y.task.id → able x.pc = true →
    able y.pc = true → q = r
  queued : ∀ id, s.db.status id = some .scheduled ∨ s.db.status id = some .pending → Quiet s id
  succeeded : ∀ id r x, s.succs id ≠ 0 → s.runs r = some x → x.task.id = id → able x.pc = false
  atMostOne : ∀ id, s.succs id ≤ 1

/-- A run that may complete its task is one from before, or has just been dispatched. -/
theorem From.able_before {s : St} {e : Ev} {r : Nat} {y : Active} (h : From s e r y) (ha : able y.pc = true) :
    (∃ x, s.runs r = some x ∧ x.task.id = y.task.id ∧ able x.pc = true) ∨
      (s.db.status y.task.id = some .pending ∧ r = s.nextRun ∧ e = .dispatch y.task.id) := by
  cases h with
  | kept hx => exact .inl ⟨y, hx, rfl, ha⟩
  | stepped hx hs => exact .inl ⟨_, hx, rfl, (hs.able ha).1⟩
  | dispatched hp => exact .inr ⟨hp, rfl, rfl⟩

theorem able_of_successor {s : St} {x : Active} {a : Answer} {o : Outcome} {n : Nat} (h : Stepped s x a o)
    (hn : o.commit = some (.successor n)) : able x.pc = true ∧ able o.pc = false := by
  constructor
  · obtain ⟨heff, -, -, -⟩ := h
    obtain ⟨db', pc', c⟩ := o
    cases heff with
    | nothing => cases hn
    | committed ht =>
      cases hn
      obtain ⟨-, snapshot, interval, hpc⟩ := transaction_successor ht
      rw [hpc]; rfl
  · by_contra hb
    exact (h.able (by simpa using hb)).2 n hn

theorem quiet_step {s s' : St} {e : Ev} {id : Nat} (h : Change s e s') (hq : Quiet s id) (he : e ≠ .dispatch id) :
    Quiet s' id := by
  constructor
  · intro r y hy hid
    by_contra ha
    rcases (h.runs hy).able_before (by simpa using ha) with ⟨x, hx, hxy, hax⟩ | ⟨-, -, rfl⟩
    · rw [hq.1 r x hx (hxy.trans hid)] at hax
      cases hax
    · exact he (by rw [hid])
  · rcases h.succs id with heq | ⟨-, r, x, o, n, hx, hid, hn, ⟨a, hst⟩, -⟩
    · rw [heq, hq.2]
    · have hax := (able_of_successor hst hn).1
      rw [hq.1 r x hx hid] at hax
      cases hax

theorem quiet_nextId {s : St} (hw : Rows s) : Quiet s s.db.nextId := by
  constructor
  · intro r x hx hid
    have := hw.runs r x hx
    rw [hid] at this
    exact absurd this (not_has_nextId _)
  · by_contra hn
    exact not_has_nextId _ (hw.succs _ hn)

theorem Change.dispatch_running {s s' : St} {id : Nat} (h : Change s (.dispatch id) s') :
    s'.db.status id = some .running := by
  cases h with
  | dispatch ht hp => simp [Tasks.dispatch, Db.status, ht]

/-- A task found on the schedule or pending after a step was quiet before it. -/
theorem Change.quiet_before {s s' : St} {e : Ev} {id : Nat} (h : Change s e s') (ho : OneRun s) (hu : Unsuperseded s e)
    (hs : s'.db.status id = some .scheduled ∨ s'.db.status id = some .pending) : Quiet s id := by
  rcases h.status ho.rows with heq | ⟨j, st, hm, heq⟩
  · rw [heq] at hs
    exact ho.queued id hs
  · rw [heq] at hs
    by_cases e : id = j
    · subst e
      simp only [Function.update_self, Option.some.injEq] at hs
      cases hm with
      | create => exact quiet_nextId ho.rows
      | succeed => exact quiet_nextId ho.rows
      | promote hp => exact ho.queued id (.inl hp)
      | run hx hc hst hq =>
        rcases hq with rfl | rfl | rfl
        · exact hu _ ⟨_, hx, rfl, hc⟩
        · simp at hs
        · simp at hs
      | recover hz =>
        refine hu _ ⟨rfl, ?_⟩
        rcases hs with hs | hs
        · exact hs
        · simp only [Zombie.target] at hs; split at hs <;> cases hs
      | dispatch => simp at hs
      | archive => simp at hs
      | delete => simp at hs
    · rw [Function.update_of_ne e] at hs
      exact ho.queued id hs

theorem step_oneRun {s s' : St} {e : Ev} (h : Change s e s') (ho : OneRun s) (hu : Unsuperseded s e) : OneRun s' where
  rows := h.rows ho.rows
  one := by
    intro q r x y hx hy hid hax hay
    rcases (h.runs hx).able_before hax with ⟨x', hx', hxx, hax'⟩ | ⟨hpx, hq, -⟩
    · rcases (h.runs hy).able_before hay with ⟨y', hy', hyy, hay'⟩ | ⟨hpy, -, -⟩
      · exact ho.one q r x' y' hx' hy' (by rw [hxx, hyy, hid]) hax' hay'
      · rw [(ho.queued _ (.inr hpy)).1 q x' hx' (hxx.trans hid)] at hax'
        cases hax'
    · rcases (h.runs hy).able_before hay with ⟨y', hy', hyy, hay'⟩ | ⟨-, hr, -⟩
      · rw [(ho.queued _ (.inr hpx)).1 r y' hy' (hyy.trans hid.symm)] at hay'
        cases hay'
      · rw [hq, hr]
  queued := by
    intro id hs
    apply quiet_step h (h.quiet_before ho hu hs)
    intro h₁
    subst h₁
    rw [h.dispatch_running] at hs
    simp at hs
  succeeded := by
    intro id r y hn hy hid
    by_contra ha
    have hay : able y.pc = true := by simpa using ha
    subst hid
    rcases h.succs y.task.id with heq | ⟨-, q, x, o, n, hx, hxid, hc, ⟨a, hst⟩, hruns⟩
    · rw [heq] at hn
      rcases (h.runs hy).able_before hay with ⟨y', hy', hyy, hay'⟩ | ⟨hp, -, -⟩
      · rw [ho.succeeded _ r y' hn hy' hyy] at hay'
        cases hay'
      · exact hn (ho.queued _ (.inr hp)).2
    · obtain ⟨hax, hao⟩ := able_of_successor hst hc
      rcases (h.runs hy).able_before hay with ⟨y', hy', hyy, hay'⟩ | ⟨hp, -, -⟩
      · obtain rfl := ho.one q r x y' hx hy' (by rw [hxid, hyy]) hax hay'
        rw [hruns, Function.update_self, Option.some.injEq] at hy
        subst hy
        rw [hao] at hay
        cases hay
      · rw [(ho.queued _ (.inr hp)).1 q x hx hxid] at hax
        cases hax
  atMostOne := by
    intro id
    rcases h.succs id with heq | ⟨heq, r, x, o, n, hx, hid, hc, ⟨a, hst⟩, -⟩
    · rw [heq]; exact ho.atMostOne id
    · have hz : s.succs id = 0 := by
        by_contra hn
        have := (able_of_successor hst hc).1
        rw [ho.succeeded id r x hn hx hid] at this
        cases this
      omega

/-- A weekly task, due to be dispatched. -/
def weekly : Db := dbOf { repeatingTask "7 days" with status := .pending }

/-- The minutes a run is silent for: zombie recovery's timeout and more. -/
def silence : Timestamp := minutes 6

end Errand.Server.Lifecycle

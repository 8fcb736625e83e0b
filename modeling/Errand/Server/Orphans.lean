import Errand.Lib.Dict
import Errand.Lib.Flagged
import Errand.Lib.Machine
import Errand.Server.Lifecycle

/-
  Errand.Server.Orphans — what a process clears away when it starts
  (`cleanup_orphaned_jobs`, `_recover_orphaned_task` and `KubernetesRuntime.prepare`,
  errand/container_runtime.py; `TaskManager.run`, errand/task_manager.py).

  Any number of processes share a namespace and a database. Each begins with the cleanup,
  before it asks for the leader lock: it lists the Jobs with the label all processes put on
  theirs, takes them one by one — looks the task of the Job up, writes it back on the
  schedule if it was running, deletes the Job by its name — and goes on to the ConfigMaps
  and the Secrets. Nothing in it asks for a heartbeat or an owner. A call to the API may
  fail, and is passed over; a list that fails ends the cleanup.

  The API takes a name once. A run ends with its process; other writers of the database, and
  whatever else removes resources, do as they like.

  Proved:
  - `cleanup_spares`: no cleanup disturbs a run in progress, in every run of the system in
    which nothing listed belongs to one and no process takes up a task or a name that is on
    another's list.
  - `a_listed_job_goes`: a cleanup that finds a Job of a run in progress deletes it.
-/

namespace Errand.Server.Orphans

open Errand.Lib Errand.Server.Tasks

inductive Kind where
  | job
  | configMap
  | secret
  deriving DecidableEq, Repr

/-- A resource labelled `managed-by`, with its `task-id` label. -/
structure Resource where
  name : String
  task : Nat
  deriving DecidableEq, Repr

/-- Where a process is in its start. -/
inductive Phase where
  | listing (kind : Kind)
  /-- The Jobs listed and not done yet. -/
  | jobs (todo : List Resource)
  /-- The task of a Job was read, and it was running. -/
  | recovering (job : Resource) (loaded : Task) (todo : List Resource)
  | deleting (job : Resource) (todo : List Resource)
  | sweeping (kind : Kind) (todo : List Resource)
  | polling
  deriving DecidableEq, Repr

/-- A task a process works on. -/
structure Run where
  process : Nat
  task : Nat
  deriving DecidableEq, Repr

structure St where
  db : Db
  cluster : Kind → List Resource
  processes : List (Nat × Phase)
  runs : List Run

/-! ## `_recover_orphaned_task` -/

def recoveredMessage (retryCount : Nat) : String :=
  "Task recovered during server startup cleanup. Retry count (" ++ toString retryCount ++
    ") has reached the maximum (" ++ toString maxRetries ++ "). Moved to review for manual inspection."

/-- The commit, from the row that was loaded. -/
def recoverOrphanedTask (now : Timestamp) (db : Db) (id : Nat) (loaded : Task) : Db :=
  db.modify id fun t =>
    if loaded.retryCount ≥ maxRetries then
      { t with
        status := .review
        position := assign loaded.position (nextPosition db .review) t.position
        output := assign loaded.output (some (recoveredMessage loaded.retryCount)) t.output
        updatedBy := assign loaded.updatedBy (some "system") t.updatedBy
        updatedAt := assign loaded.updatedAt now t.updatedAt
        heartbeatAt := assign loaded.heartbeatAt none t.heartbeatAt }
    else
      { t with
        status := .scheduled
        position := assign loaded.position (nextPosition db .scheduled) t.position
        retryCount := loaded.retryCount + 1
        executeAt := assign loaded.executeAt (some (now + minutes (2 ^ loaded.retryCount))) t.executeAt
        updatedBy := assign loaded.updatedBy (some "system") t.updatedBy
        updatedAt := assign loaded.updatedAt now t.updatedAt
        heartbeatAt := assign loaded.heartbeatAt none t.heartbeatAt }

/-! ## The machine -/

def St.withPhase (s : St) (p : Nat) (phase : Phase) : St := { s with processes := Dict.set s.processes p phase }

def St.without (s : St) (kind : Kind) (name : String) : St :=
  { s with cluster := Function.update s.cluster kind ((s.cluster kind).filter (·.name ≠ name)) }

/-- Where the list of a kind leads. -/
def listed (kind : Kind) (items : List Resource) : Phase :=
  match kind with
  | .job => .jobs items
  | .configMap => .sweeping .configMap items
  | .secret => .sweeping .secret items

/-- After the last item of a kind. -/
def nextListing : Kind → Phase
  | .job => .listing .configMap
  | .configMap => .listing .secret
  | .secret => .polling

inductive Event where
  | start (p : Nat)
  | die (p : Nat)
  /-- The list was answered, or raised `ApiException`. -/
  | list (p : Nat) (ok : Bool)
  /-- The look at a Job's task; it may raise. -/
  | lookUp (p : Nat) (ok : Bool)
  /-- The commit of a recovery; one that raises may have landed. -/
  | recover (p : Nat) (now : Timestamp) (landed : Bool)
  | delete (p : Nat) (ok : Bool)
  /-- The end of a list. -/
  | advance (p : Nat)
  | dispatch (p task : Nat) (now : Timestamp)
  /-- `prepare` makes the ConfigMap, the Secret and the Job of a run. -/
  | create (r : Run) (kind : Kind) (name : String)
  | beat (r : Run) (now : Timestamp)
  | finish (r : Run)
  /-- A run's own cleanup, and the cluster's. -/
  | remove (kind : Kind) (name : String)
  /-- Any other transaction. -/
  | write (db : Db)

/-- What the look at a task leads to. -/
def lookedUp (db : Db) (job : Resource) (ok : Bool) (todo : List Resource) : Phase :=
  match ok, db.get job.task with
  | true, some t => if t.status = .running then .recovering job t todo else .deleting job todo
  | _, _ => .deleting job todo

def machine : Machine St Event where
  init s := s.processes = [] ∧ s.runs = [] ∧ ∀ kind, ((s.cluster kind).map Resource.name).Nodup
  step s
    | .start p =>
      match Dict.get? s.processes p with
      | none => some (s.withPhase p (.listing .job))
      | some _ => none
    | .die p =>
      some { s with processes := Dict.pop s.processes p, runs := s.runs.filter (·.process ≠ p) }
    | .list p ok =>
      match Dict.get? s.processes p with
      | some (.listing kind) => some (s.withPhase p (if ok then listed kind (s.cluster kind) else .polling))
      | _ => none
    | .lookUp p ok =>
      match Dict.get? s.processes p with
      | some (.jobs (job :: todo)) => some (s.withPhase p (lookedUp s.db job ok todo))
      | _ => none
    | .recover p now landed =>
      match Dict.get? s.processes p with
      | some (.recovering job loaded todo) =>
        some { s.withPhase p (.deleting job todo) with
          db := if landed then recoverOrphanedTask now s.db job.task loaded else s.db }
      | _ => none
    | .delete p ok =>
      match Dict.get? s.processes p with
      | some (.deleting job todo) =>
        some ((if ok then s.without .job job.name else s).withPhase p (.jobs todo))
      | some (.sweeping kind (item :: todo)) =>
        some ((if ok then s.without kind item.name else s).withPhase p (.sweeping kind todo))
      | _ => none
    | .advance p =>
      match Dict.get? s.processes p with
      | some (.jobs []) => some (s.withPhase p (nextListing .job))
      | some (.sweeping kind []) => some (s.withPhase p (nextListing kind))
      | _ => none
    | .dispatch p task now =>
      if Dict.get? s.processes p = some .polling ∧ s.db.status task = some .pending then
        some { s with db := Tasks.dispatch now s.db task, runs := ⟨p, task⟩ :: s.runs }
      else none
    | .create r kind name =>
      if r ∈ s.runs ∧ name ∉ (s.cluster kind).map Resource.name then
        some { s with cluster := Function.update s.cluster kind (s.cluster kind ++ [⟨name, r.task⟩]) }
      else none
    | .beat r now => if r ∈ s.runs then some { s with db := heartbeat now s.db r.task } else none
    | .finish r => if r ∈ s.runs then some { s with runs := s.runs.erase r } else none
    | .remove kind name => some (s.without kind name)
    | .write db => some { s with db := db }

/-! ## What a cleanup spares -/

/-- A process works on the task; a run ends with its process, so that one is alive. -/
def Owned (s : St) (task : Nat) : Prop := ∃ r ∈ s.runs, r.task = task

def isCleanup : Event → Bool
  | .list .. | .lookUp .. | .recover .. | .delete .. | .advance .. => true
  | _ => false

def scheduling (db : Db) (id : Nat) : Option (Status × Nat × Option Timestamp) :=
  (db.get id).map fun t => (t.status, t.retryCount, t.executeAt)

/-- A step of a cleanup leaves the resources and the row of every task in progress. -/
def Spares (s : St) (e : Event) (s' : St) : Prop :=
  isCleanup e = true → ∀ task, Owned s task →
    (∀ kind, ∀ x ∈ s.cluster kind, x.task = task → x ∈ s'.cluster kind) ∧
      scheduling s'.db task = scheduling s.db task

/-- The resources of a kind that a process has listed and not done yet. -/
def Phase.pending (kind : Kind) : Phase → List Resource
  | .jobs todo => if kind = .job then todo else []
  | .recovering job _ todo => if kind = .job then job :: todo else []
  | .deleting job todo => if kind = .job then job :: todo else []
  | .sweeping k todo => if kind = k then todo else []
  | _ => []

/-- Nothing a cleanup lists belongs to a task in progress, and no process takes up a task, or
    a name, that is on the list of a cleanup. -/
def Apart (s : St) : Event → Prop
  | .list p _ =>
    ∀ kind, Dict.get? s.processes p = some (.listing kind) → ∀ x ∈ s.cluster kind, ¬ Owned s x.task
  | .dispatch _ task _ => ∀ q ∈ s.processes, ∀ kind, ∀ x ∈ q.2.pending kind, x.task ≠ task
  | .create _ kind name => ∀ q ∈ s.processes, ∀ x ∈ q.2.pending kind, x.name ≠ name
  | _ => True

structure Held (s : St) : Prop where
  names : ∀ kind, ((s.cluster kind).map Resource.name).Nodup
  free : ∀ q ∈ s.processes, ∀ kind, ∀ x ∈ q.2.pending kind, ¬ Owned s x.task
  /-- What stands under a listed name is what was listed. -/
  same : ∀ q ∈ s.processes, ∀ kind, ∀ x ∈ q.2.pending kind, ∀ y ∈ s.cluster kind, y.name = x.name → y = x

/-! ## The invariant -/

theorem Held.withPhase {s : St} (h : Held s) (p : Nat) {phase : Phase}
    (hphase : ∀ kind, ∀ x ∈ phase.pending kind,
      ¬ Owned s x.task ∧ ∀ y ∈ s.cluster kind, y.name = x.name → y = x) : Held (s.withPhase p phase) where
  names := h.names
  free := by
    intro q hq kind x hx
    rcases Dict.mem_set hq with hq | rfl
    · exact h.free q hq kind x hx
    · exact (hphase kind x hx).1
  same := by
    intro q hq kind x hx
    rcases Dict.mem_set hq with hq | rfl
    · exact h.same q hq kind x hx
    · exact (hphase kind x hx).2

/-- A process goes on with what it has listed, or with part of it. -/
theorem Held.goOn {s : St} (h : Held s) {p : Nat} {before : Phase} (after : Phase)
    (hp : Dict.get? s.processes p = some before)
    (hsub : ∀ kind, ∀ x ∈ after.pending kind, x ∈ before.pending kind) : Held (s.withPhase p after) := by
  have hmem := Dict.mem_of_get? hp
  refine h.withPhase p ?_
  intro kind x hx
  exact ⟨h.free _ hmem kind x (hsub kind x hx), h.same _ hmem kind x (hsub kind x hx)⟩

theorem Held.withDb {s : St} (h : Held s) (db : Db) : Held { s with db := db } := ⟨h.names, h.free, h.same⟩

theorem Held.without {s : St} (h : Held s) (kind : Kind) (name : String) : Held (s.without kind name) := by
  have hsub : ∀ k, (s.without kind name).cluster k ⊆ s.cluster k := by
    intro k y hy
    by_cases hk : k = kind
    · subst hk
      simp only [St.without, Function.update_self] at hy
      exact (List.mem_filter.mp hy).1
    · simpa only [St.without, Function.update_of_ne hk] using hy
  refine ⟨?_, h.free, fun q hq k x hx y hy => h.same q hq k x hx y (hsub k hy)⟩
  intro k
  by_cases hk : k = kind
  · subst hk
    simp only [St.without, Function.update_self]
    exact (List.filter_sublist.map _).nodup (h.names k)
  · simpa only [St.without, Function.update_of_ne hk] using h.names k

theorem Held.fewer {s : St} (h : Held s) {processes : List (Nat × Phase)} {runs : List Run}
    (hp : ∀ q ∈ processes, q ∈ s.processes) (hr : ∀ r ∈ runs, r ∈ s.runs) :
    Held { s with processes := processes, runs := runs } where
  names := h.names
  free := by
    intro q hq kind x hx howned
    rcases howned with ⟨r, hrun, htask⟩
    exact h.free q (hp q hq) kind x hx ⟨r, hr r hrun, htask⟩
  same := fun q hq => h.same q (hp q hq)

theorem pending_listed {kind k : Kind} {items : List Resource} {x : Resource} (h : x ∈ (listed kind items).pending k) :
    k = kind ∧ x ∈ items := by
  cases kind <;> simp only [listed, Phase.pending] at h <;> split at h <;> first | exact ⟨‹_›, h⟩ | cases h

theorem pending_rest {kind k : Kind} {item x : Resource} {todo : List Resource}
    (h : x ∈ (Phase.sweeping k todo).pending kind) : x ∈ (Phase.sweeping k (item :: todo)).pending kind := by
  simp only [Phase.pending] at h ⊢
  split at h
  · rename_i hk
    rw [if_pos hk]
    exact List.mem_cons_of_mem _ h
  · cases h

theorem pending_nextListing (kind k : Kind) : (nextListing kind).pending k = [] := by
  cases kind <;> rfl

theorem pending_lookedUp {db : Db} {job : Resource} {ok : Bool} {todo : List Resource} {kind : Kind} :
    (lookedUp db job ok todo).pending kind = (Phase.deleting job todo).pending kind := by
  unfold lookedUp
  split
  · split <;> rfl
  · rfl

/-- What a step of a cleanup does: it lists, goes on with what it has listed, or with part of
    it, and besides takes a listed task from its run, or deletes a listed resource. -/
inductive Cleans (s : St) : Event → St → Prop where
  | lists {p : Nat} {kind : Kind} : Dict.get? s.processes p = some (.listing kind) →
      Cleans s (.list p true) (s.withPhase p (listed kind (s.cluster kind)))
  | goesOn {e : Event} {p : Nat} {before : Phase} (after : Phase) : Dict.get? s.processes p = some before →
      (∀ kind, ∀ x ∈ after.pending kind, x ∈ before.pending kind) → Cleans s e (s.withPhase p after)
  | recovers {p : Nat} {now : Timestamp} {job : Resource} {loaded : Task} {todo : List Resource} :
      Dict.get? s.processes p = some (.recovering job loaded todo) →
      Cleans s (.recover p now true)
        { s.withPhase p (.deleting job todo) with db := recoverOrphanedTask now s.db job.task loaded }
  | deletes {p : Nat} {before : Phase} {kind : Kind} {x : Resource} (after : Phase) :
      Dict.get? s.processes p = some before → x ∈ before.pending kind →
      (∀ kind, ∀ x ∈ after.pending kind, x ∈ before.pending kind) →
      Cleans s (.delete p true) ((s.without kind x.name).withPhase p after)

theorem step_cleans {s s' : St} {e : Event} (he : isCleanup e = true) (hst : machine.step s e = some s') :
    Cleans s e s' := by
  cases e with
  | list p ok =>
    simp only [machine] at hst
    split at hst
    · rename_i kind hp
      cases hst
      cases ok with
      | false => exact .goesOn .polling hp (by rintro _ _ ⟨⟩)
      | true => exact .lists hp
    · cases hst
  | lookUp p ok =>
    simp only [machine] at hst
    split at hst
    · rename_i job todo hp
      cases hst
      refine .goesOn _ hp ?_
      intro kind x hx
      rwa [pending_lookedUp] at hx
    · cases hst
  | recover p now landed =>
    simp only [machine] at hst
    split at hst
    · rename_i job loaded todo hp
      cases hst
      cases landed with
      | false => exact .goesOn (.deleting job todo) hp fun _ _ hx => hx
      | true => exact .recovers hp
    · cases hst
  | delete p ok =>
    simp only [machine] at hst
    split at hst
    · rename_i job todo hp
      cases hst
      have hrest : ∀ kind, ∀ x ∈ (Phase.jobs todo).pending kind, x ∈ (Phase.deleting job todo).pending kind :=
        fun _ _ hx => pending_rest (k := .job) hx
      have hjob : job ∈ (Phase.deleting job todo).pending .job := List.mem_cons_self ..
      cases ok with
      | false => exact .goesOn _ hp hrest
      | true => exact .deletes _ hp hjob hrest
    · rename_i kind item todo hp
      cases hst
      have hrest : ∀ k, ∀ x ∈ (Phase.sweeping kind todo).pending k, x ∈ (Phase.sweeping kind (item :: todo)).pending k :=
        fun _ _ hx => pending_rest hx
      have hitem : item ∈ (Phase.sweeping kind (item :: todo)).pending kind := by simp [Phase.pending]
      cases ok with
      | false => exact .goesOn _ hp hrest
      | true => exact .deletes _ hp hitem hrest
    · cases hst
  | advance p =>
    simp only [machine] at hst
    split at hst
    · rename_i hp
      cases hst
      exact .goesOn _ hp (by rintro _ _ ⟨⟩)
    · rename_i kind hp
      cases hst
      refine .goesOn _ hp ?_
      intro k x hx
      rw [pending_nextListing] at hx
      cases hx
    · cases hst
  | _ => cases he

theorem Held.cleans {s s' : St} {e : Event} (h : Held s) (ha : Apart s e) (hc : Cleans s e s') : Held s' := by
  cases hc with
  | lists hp =>
    refine h.withPhase _ ?_
    intro k x hx
    obtain ⟨rfl, hx⟩ := pending_listed hx
    exact ⟨ha k hp x hx, fun y hy hname => eq_of_key (h.names k) hy hx hname⟩
  | goesOn after hp hsub => exact h.goOn after hp hsub
  | recovers hp => exact (h.goOn (.deleting _ _) hp fun _ _ hx => hx).withDb _
  | deletes after hp _ hsub => exact (h.goOn after hp hsub).without _ _

/-- The API refuses a name that is taken, and the name is on no list. -/
theorem Held.create {s : St} (h : Held s) {r : Run} {kind : Kind} {name : String}
    (hfree : name ∉ (s.cluster kind).map Resource.name)
    (hnew : ∀ q ∈ s.processes, ∀ x ∈ q.2.pending kind, x.name ≠ name) :
    Held { s with cluster := Function.update s.cluster kind (s.cluster kind ++ [⟨name, r.task⟩]) } where
  names := by
    intro k
    by_cases hk : k = kind
    · subst hk
      simp only [Function.update_self]
      refine nodup_append (h.names k) ?_
      intro x hx hname
      exact hfree (List.mem_map.mpr ⟨x, hx, hname⟩)
    · simpa only [Function.update_of_ne hk] using h.names k
  free := h.free
  same := by
    intro q hq k x hx y hy hname
    by_cases hk : k = kind
    · subst hk
      simp only [Function.update_self] at hy
      rcases List.mem_append.mp hy with hy | hy
      · exact h.same q hq k x hx y hy hname
      · rw [List.mem_singleton] at hy
        subst hy
        exact absurd hname.symm (hnew q hq x hx)
    · simp only [Function.update_of_ne hk] at hy
      exact h.same q hq k x hx y hy hname

theorem Held.dispatch {s : St} (h : Held s) {p task : Nat} {now : Timestamp}
    (hnew : ∀ q ∈ s.processes, ∀ kind, ∀ x ∈ q.2.pending kind, x.task ≠ task) :
    Held { s with db := Tasks.dispatch now s.db task, runs := ⟨p, task⟩ :: s.runs } where
  names := h.names
  free := by
    intro q hq kind x hx howned
    rcases howned with ⟨r, hr, htask⟩
    rcases List.mem_cons.mp hr with rfl | hr
    · exact hnew q hq kind x hx htask.symm
    · exact h.free q hq kind x hx ⟨r, hr, htask⟩
  same := h.same

theorem step_held {s s' : St} {e : Event} (h : Held s) (ha : Apart s e) (hst : machine.step s e = some s') :
    Held s' := by
  cases e with
  | start p =>
    simp only [machine] at hst
    split at hst
    · cases hst
      exact h.withPhase p (by rintro _ _ ⟨⟩)
    · cases hst
  | die p =>
    cases hst
    exact h.fewer (fun q hq => (List.mem_filter.mp hq).1) (fun r hr => (List.mem_filter.mp hr).1)
  | dispatch p task now =>
    simp only [machine, Option.ite_none_right_eq_some] at hst
    obtain ⟨-, hst⟩ := hst
    cases hst
    exact h.dispatch ha
  | create r kind name =>
    simp only [machine, Option.ite_none_right_eq_some] at hst
    obtain ⟨⟨-, hfree⟩, hst⟩ := hst
    cases hst
    exact h.create hfree ha
  | beat r now =>
    simp only [machine, Option.ite_none_right_eq_some] at hst
    obtain ⟨-, hst⟩ := hst
    cases hst
    exact h.withDb _
  | finish r =>
    simp only [machine, Option.ite_none_right_eq_some] at hst
    obtain ⟨-, hst⟩ := hst
    cases hst
    exact h.fewer (fun _ hq => hq) (fun _ hr => List.mem_of_mem_erase hr)
  | remove kind name =>
    cases hst
    exact h.without kind name
  | write db =>
    cases hst
    exact h.withDb db
  | _ => exact h.cleans ha (step_cleans rfl hst)

/-! ## The cleanup -/

theorem scheduling_recover {now : Timestamp} {db : Db} {id : Nat} {loaded : Task} {task : Nat} (h : task ≠ id) :
    scheduling (recoverOrphanedTask now db id loaded) task = scheduling db task := by
  unfold scheduling recoverOrphanedTask
  rw [Db.modify_other db _ h]

/-- Deleting a listed resource leaves those of the tasks in progress. -/
theorem Held.spared {s : St} (h : Held s) {q : Nat × Phase} (hq : q ∈ s.processes) {kind : Kind} {x : Resource}
    (hx : x ∈ q.2.pending kind) {task : Nat} (howned : Owned s task) {k : Kind} {y : Resource} (hy : y ∈ s.cluster k)
    (htask : y.task = task) : y ∈ (s.without kind x.name).cluster k := by
  by_cases hk : k = kind
  · subst hk
    simp only [St.without, Function.update_self]
    refine List.mem_filter.mpr ⟨hy, ?_⟩
    rw [decide_eq_true_eq]
    intro hname
    obtain rfl := h.same q hq k x hx y hy hname
    rw [← htask] at howned
    exact h.free q hq k y hx howned
  · simpa only [St.without, Function.update_of_ne hk] using hy

theorem step_spares {s s' : St} {e : Event} (h : Held s) (hst : machine.step s e = some s') : Spares s e s' := by
  intro hcleanup task howned
  cases step_cleans hcleanup hst with
  | lists _ => exact ⟨fun _ _ hx _ => hx, rfl⟩
  | goesOn _ _ _ => exact ⟨fun _ _ hx _ => hx, rfl⟩
  | @recovers p now job loaded todo hp =>
    have hjob : job ∈ (Phase.recovering job loaded todo).pending .job := List.mem_cons_self ..
    refine ⟨fun _ _ hx _ => hx, scheduling_recover ?_⟩
    intro heq
    subst heq
    exact h.free _ (Dict.mem_of_get? hp) .job job hjob howned
  | deletes _ hp hx _ => exact ⟨fun k y hy htask => h.spared (Dict.mem_of_get? hp) hx howned hy htask, rfl⟩

theorem reach_held {s : St} (h : machine.ReachIf Apart s) : Held s := by
  refine h.inv (P := Held) ?_ fun s e s' hs ha hst => step_held hs ha hst
  intro s hinit
  rcases hinit with ⟨hprocesses, -, hnames⟩
  refine ⟨hnames, ?_, ?_⟩
  · intro q hq
    rw [hprocesses] at hq
    cases hq
  · intro q hq
    rw [hprocesses] at hq
    cases hq

/-- No step of a cleanup deletes a resource of a task in progress or moves its row, where
    every step before kept the lists apart from the work. -/
theorem cleanup_spares {s s' : St} {e : Event} (h : machine.ReachIf Apart s) (hst : machine.step s e = some s') :
    Spares s e s' := step_spares (reach_held h) hst

/-- A task waiting to be dispatched, and nothing in the namespace. -/
def waiting : St := ⟨dbOf { repeatingTask "7 days" with status := .pending }, fun _ => [], [], []⟩

theorem apart_polling {s : St} (h : ∀ q ∈ s.processes, q.2 = .polling) {e : Event} (he : ∀ p ok, e ≠ .list p ok) :
    Apart s e := by
  have hnone : ∀ q ∈ s.processes, ∀ kind, q.2.pending kind = [] := by
    intro q hq kind
    rw [h q hq]
    rfl
  cases e with
  | list p ok => exact absurd rfl (he p ok)
  | dispatch p task now =>
    intro q hq kind x hx
    rw [hnone q hq] at hx
    cases hx
  | create r kind name =>
    intro q hq x hx
    rw [hnone q hq] at hx
    cases hx
  | _ => trivial

theorem apart_empty {s : St} (h : ∀ kind, s.cluster kind = []) {p : Nat} {ok : Bool} : Apart s (.list p ok) := by
  intro kind _ x hx
  rw [h kind] at hx
  cases hx

theorem apart_idle {s : St} (h : s.runs = []) {p : Nat} {ok : Bool} : Apart s (.list p ok) := by
  intro kind _ x _ howned
  rcases howned with ⟨r, hr, -⟩
  rw [h] at hr
  cases hr

/-- The first process starts, finds nothing, takes the task up and dies; the next one finds
    its Job. -/
theorem a_dead_process_is_cleaned_up :
    ∃ s s' : St, machine.step s (.recover 1 60000000 true) = some s' ∧ s'.db.status 0 = some .scheduled ∧
      Spares s (.recover 1 60000000 true) s' := by
  have hone : ∀ q ∈ [((0 : Nat), Phase.polling)], q.2 = .polling := by decide
  have h0 : machine.ReachIf Apart waiting := .init ⟨rfl, rfl, fun _ => List.nodup_nil⟩
  have h1 := h0.step (Event.start 0) trivial rfl
  have h2 := h1.step (Event.list 0 true) (apart_empty fun _ => rfl) rfl
  have h3 := h2.step (Event.advance 0) trivial rfl
  have h4 := h3.step (Event.list 0 true) (apart_empty fun _ => rfl) rfl
  have h5 := h4.step (Event.advance 0) trivial rfl
  have h6 := h5.step (Event.list 0 true) (apart_empty fun _ => rfl) rfl
  have h7 := h6.step (Event.advance 0) trivial rfl
  have h8 := h7.step (Event.dispatch 0 0 0) (apart_polling hone (by nofun)) rfl
  have h9 := h8.step (Event.create ⟨0, 0⟩ .configMap "task-runner-1") (apart_polling hone (by nofun)) rfl
  have h10 := h9.step (Event.create ⟨0, 0⟩ .job "task-runner-1") (apart_polling hone (by nofun)) rfl
  have h11 := h10.step (Event.die 0) trivial rfl
  have h12 := h11.step (Event.start 1) trivial rfl
  have h13 := h12.step (Event.list 1 true) (apart_idle rfl) rfl
  have h14 := h13.step (Event.lookUp 1 true) trivial rfl
  exact ⟨_, _, rfl, rfl, cleanup_spares h14 rfl⟩

/-- The same, but the first process lives: the second puts its task back on the schedule. -/
theorem a_start_reschedules_a_running_task :
    ¬ ∀ (s s' : St) (e : Event), machine.Reach s → machine.step s e = some s' → Spares s e s' := by
  intro h
  have hstart : machine.Reach waiting := .init ⟨rfl, rfl, fun _ => List.nodup_nil⟩
  have hreach := hstart.exec (rfl : machine.exec waiting
    [.start 0, .list 0 true, .advance 0, .list 0 true, .advance 0, .list 0 true, .advance 0, .dispatch 0 0 0,
     .create ⟨0, 0⟩ .configMap "task-runner-1", .create ⟨0, 0⟩ .job "task-runner-1", .beat ⟨0, 0⟩ 60000000,
     .start 1, .list 1 true, .lookUp 1 true] = some _)
  have hspares := (h _ _ (.recover 1 60000000 true) hreach rfl rfl 0 ⟨⟨0, 0⟩, List.mem_cons_self .., rfl⟩).2
  exact absurd hspares (by decide)

/-! ## What is listed goes -/

/-- A cleanup with the Job of a task in progress on its list goes on to delete it. -/
theorem a_pending_job_goes {s : St} {p : Nat} {todo : List Resource} {x : Resource}
    (hp : Dict.get? s.processes p = some (.jobs todo)) (hx : x ∈ todo) (hmem : x ∈ s.cluster .job)
    (howned : Owned s x.task) :
    ∃ es t t', (∀ e ∈ es, isCleanup e = true) ∧ machine.exec s es = some t ∧
      machine.step t (.delete p true) = some t' ∧ ¬ Spares t (.delete p true) t' := by
  induction todo generalizing s with
  | nil => cases hx
  | cons y todo ih =>
    let s₁ := s.withPhase p (.deleting y todo)
    have hlook : machine.step s (.lookUp p false) = some s₁ := by
      simp only [machine, hp]
      rfl
    have hdeleting : Dict.get? s₁.processes p = some (.deleting y todo) := Dict.get?_set_self ..
    let s₂ := (s₁.without .job y.name).withPhase p (.jobs todo)
    have hdelete : machine.step s₁ (.delete p true) = some s₂ := by
      simp only [machine, hdeleting]
      rfl
    by_cases hname : x.name = y.name
    · refine ⟨[.lookUp p false], s₁, s₂, by simp [isCleanup], (machine.exec_cons hlook _).trans rfl, hdelete, ?_⟩
      intro hspares
      have hgone := (hspares rfl x.task howned).1 .job x hmem rfl
      simp [s₂, St.withPhase, St.without, hname] at hgone
    · have hrest : x ∈ todo := by
        rcases List.mem_cons.mp hx with rfl | hx
        · exact absurd rfl hname
        · exact hx
      have hkept : x ∈ s₂.cluster .job := by
        simp only [s₂, St.withPhase, St.without, Function.update_self]
        exact List.mem_filter.mpr ⟨hmem, by simpa using hname⟩
      obtain ⟨es, t, t', hes, hrun, hstep, hnot⟩ := ih (Dict.get?_set_self ..) hrest hkept howned
      refine ⟨.lookUp p false :: .delete p true :: es, t, t', ?_, ?_, hstep, hnot⟩
      · intro e he
        simp only [List.mem_cons] at he
        rcases he with rfl | rfl | he
        · rfl
        · rfl
        · exact hes e he
      · rw [machine.exec_cons hlook, machine.exec_cons hdelete]
        exact hrun

theorem a_listed_job_goes {s : St} {p : Nat} {x : Resource} (hp : Dict.get? s.processes p = some (.listing .job))
    (hx : x ∈ s.cluster .job) (howned : Owned s x.task) :
    ∃ es t t', (∀ e ∈ es, isCleanup e = true) ∧ machine.exec s es = some t ∧
      machine.step t (.delete p true) = some t' ∧ ¬ Spares t (.delete p true) t' := by
  have hlist : machine.step s (.list p true) = some (s.withPhase p (.jobs (s.cluster .job))) := by
    simp only [machine, hp]
    rfl
  obtain ⟨es, t, t', hes, hrun, hstep, hnot⟩ := a_pending_job_goes
    (s := s.withPhase p (.jobs (s.cluster .job))) (Dict.get?_set_self ..) hx hx howned
  refine ⟨.list p true :: es, t, t', ?_, (machine.exec_cons hlist _).trans hrun, hstep, hnot⟩
  intro e he
  rcases List.mem_cons.mp he with rfl | he
  · rfl
  · exact hes e he

end Errand.Server.Orphans

import Mathlib.Data.List.Basic
import Mathlib.Logic.Function.Basic
import Mathlib.Algebra.Group.Nat.Defs

/-
  Errand.Server.Tasks — the tasks table (errand/models.py) and the transactions the task
  manager, the scheduler, the zombie cleanup and the delete route commit on it.

  A database is the rows by id. An id is drawn once (`uuid4`), so a row that is inserted
  is new, and no transaction here removes one. Each transaction is the function of the
  database its statements compute, under the name of the function that runs them; what a
  transaction read earlier, in another statement, is an argument.

  Proved:
  - `status_modify`, `status_insert`: a transaction that gives a task one status moves that
    task's status and no other; `has_modify`, `has_insert`: rows stay.
  - `recoverZombie_status`: a recovered task goes to `review` or back to `scheduled`,
    whatever its status has become since the sweep loaded it.
  - `backoffMinutes_le`, `zombieBackoff_le`: no backoff is longer than the cap.
-/

namespace Errand.Server.Tasks

/-- Microseconds since the start of year 1, UTC. -/
abbrev Timestamp := Int

def minutes (n : Nat) : Int := n * 60000000

/-- `VALID_STATUSES`. -/
inductive Status where
  | scheduled
  | pending
  | running
  | review
  | completed
  | deleted
  | archived
  deriving DecidableEq, Repr

structure Task where
  title : String
  description : Option String
  status : Status
  createdAt : Timestamp
  updatedAt : Timestamp
  category : Option String
  executeAt : Option Timestamp
  repeatInterval : Option String
  repeatUntil : Option Timestamp
  position : Int
  output : Option String
  runnerLogs : Option String
  questions : Option (List String)
  retryCount : Nat
  heartbeatAt : Option Timestamp
  profileId : Option Nat
  createdBy : Option String
  updatedBy : Option String
  isEval : Bool
  /-- The names of its tags. -/
  tags : List String
  deriving DecidableEq, Repr

structure Db where
  nextId : Nat
  get : Nat → Option Task
  fresh : ∀ id, nextId ≤ id → get id = none

theorem Db.fresh_none : ∀ id, 0 ≤ id → (fun _ => none : Nat → Option Task) id = none := fun _ _ => rfl

/-! ## Rows -/

namespace Db

def modify (db : Db) (id : Nat) (f : Task → Task) : Db where
  nextId := db.nextId
  get := Function.update db.get id ((db.get id).map f)
  fresh := by
    intro j hj
    by_cases e : j = id
    · subst e; simp [db.fresh j hj]
    · rw [Function.update_of_ne e]; exact db.fresh j hj

def insert (db : Db) (t : Task) : Db where
  nextId := db.nextId + 1
  get := Function.update db.get db.nextId (some t)
  fresh := by
    intro j hj
    rw [Function.update_of_ne (by omega)]
    exact db.fresh j (by omega)

def rows (db : Db) : List Task := (List.range db.nextId).filterMap db.get

@[simp] theorem modify_nextId (db : Db) (id : Nat) (f : Task → Task) : (db.modify id f).nextId = db.nextId := rfl

@[simp] theorem modify_self (db : Db) (id : Nat) (f : Task → Task) :
    (db.modify id f).get id = (db.get id).map f := by simp [modify]

theorem modify_other (db : Db) {id j : Nat} (f : Task → Task) (h : j ≠ id) : (db.modify id f).get j = db.get j := by
  simp [modify, Function.update_of_ne h]

@[simp] theorem insert_nextId (db : Db) (t : Task) : (db.insert t).nextId = db.nextId + 1 := rfl

@[simp] theorem insert_self (db : Db) (t : Task) : (db.insert t).get db.nextId = some t := by simp [insert]

theorem insert_other (db : Db) {j : Nat} (t : Task) (h : j ≠ db.nextId) : (db.insert t).get j = db.get j := by
  simp [insert, Function.update_of_ne h]

end Db

/-- `task_tags` gets the pair once. -/
def addTag (tag : String) (tags : List String) : List String := if tag ∈ tags then tags else tags ++ [tag]

def removeTag (tag : String) (tags : List String) : List String := tags.filter (· ≠ tag)

@[simp] theorem mem_addTag {tag new : String} {tags : List String} : tag ∈ addTag new tags ↔ tag = new ∨ tag ∈ tags := by
  unfold addTag
  split
  · constructor
    · exact .inr
    · intro h
      rcases h with rfl | h
      · assumption
      · exact h
  · simp [or_comm]

@[simp] theorem mem_removeTag {tag old : String} {tags : List String} :
    tag ∈ removeTag old tags ↔ tag ∈ tags ∧ tag ≠ old := by
  simp [removeTag]

/-- `_next_position`: `max(position) + 1` over the column, counted from 0 when it is empty. -/
def nextPosition (db : Db) (status : Status) : Int :=
  match ((db.rows.filter (·.status = status)).map (·.position)).max? with
  | none => 1
  | some top => top + 1

/-! ## The result of a run (`_run_task`, task_manager.py) -/

/-- `TaskRunnerOutput.status`. -/
inductive RunnerStatus where
  | completed
  | needsInput
  deriving DecidableEq, Repr

structure TaskRunnerOutput where
  status : RunnerStatus
  result : String
  questions : List String
  deriving DecidableEq, Repr

def internalCreatedBy : List String := ["system", "mcp", "email_poller"]

def startsWith (start s : String) : Bool := start.toList.isPrefixOf s.toList

/-- `_is_external_client`. -/
def isExternalClient : Option String → Bool
  | none => false
  | some createdBy =>
    if createdBy.isEmpty then false
    else if createdBy ∈ internalCreatedBy then false
    else if '@' ∈ createdBy.toList then false
    else if startsWith "jira:" createdBy then false
    else if startsWith "github:" createdBy then false
    else true

def targetStatus (createdBy : Option String) (parsed : TaskRunnerOutput) : Status :=
  match parsed.status with
  | .completed => .completed
  | .needsInput => if isExternalClient createdBy then .completed else .review

def recordResult (now : Timestamp) (db : Db) (id : Nat) (target : Status) (parsed : TaskRunnerOutput)
    (stderr : String) : Db :=
  db.modify id fun t =>
    { t with
      status := target
      position := nextPosition db target
      output := some parsed.result
      runnerLogs := some stderr
      questions := if parsed.questions.isEmpty then none else some parsed.questions
      retryCount := 0
      updatedBy := some "system"
      updatedAt := now
      tags := removeTag "Retry" (if parsed.status = .needsInput then addTag "Input Needed" t.tags else t.tags) }

/-! ## Retries (`_schedule_retry`, `_escalate_to_review_failed`) -/

def maxGitRetries : Nat := 5
def maxRetryBackoffMinutes : Nat := 60
def defaultMaxRetryAttempts : Int := 5

/-- What `resolve_setting_value` and then `int` make of a setting. -/
inductive Setting where
  | unresolved
  | notInteger
  | value (i : Int)
  deriving DecidableEq, Repr

/-- `_get_max_retry_attempts`. -/
def getMaxRetryAttempts : Setting → Int
  | .unresolved => defaultMaxRetryAttempts
  | .notInteger => defaultMaxRetryAttempts
  | .value i => if i ≤ 0 then 1 else i

/-- The characters of `output` that fit whole in `maxBytes` bytes of UTF-8. -/
def takeBytes (maxBytes : Nat) : List Char → List Char
  | [] => []
  | c :: cs => if c.utf8Size ≤ maxBytes then c :: takeBytes (maxBytes - c.utf8Size) cs else []

def truncateOutput (output : String) (maxBytes : Nat) : String :=
  if output.utf8ByteSize ≤ maxBytes then output
  else String.ofList (takeBytes maxBytes output.toList) ++
    "\n\n--- OUTPUT TRUNCATED (exceeded " ++ toString maxBytes ++ " bytes) ---"

def backoffMinutes (retryCount : Nat) : Nat := min (2 ^ retryCount) maxRetryBackoffMinutes

/-- The branch of `_schedule_retry` below the cap. The counter was read before. -/
def retry (now : Timestamp) (db : Db) (id : Nat) (retryCount : Nat) (output runnerLogs : Option String) : Db :=
  db.modify id fun t =>
    { t with
      status := .scheduled
      position := nextPosition db .scheduled
      retryCount := retryCount + 1
      executeAt := some (now + minutes (backoffMinutes retryCount))
      updatedBy := some "system"
      updatedAt := now
      output := output.or t.output
      runnerLogs := runnerLogs.or t.runnerLogs
      tags := addTag "Retry" t.tags }

def escalationMessage (maxAttempts : Int) (output : Option String) : String :=
  "Task exceeded max retries (" ++ toString maxAttempts ++ ") — last failure: " ++
    truncateOutput (output.getD "(no output)") 4096

/-- `_escalate_to_review_failed`. -/
def escalate (now : Timestamp) (db : Db) (id : Nat) (retryCount : Nat) (maxAttempts : Int)
    (output runnerLogs : Option String) : Db :=
  db.modify id fun t =>
    { t with
      status := .review
      position := nextPosition db .review
      output := some (escalationMessage maxAttempts output)
      retryCount := retryCount + 1
      updatedBy := some "system"
      updatedAt := now
      runnerLogs := runnerLogs.or t.runnerLogs
      tags := addTag "Failed" (removeTag "Retry" t.tags) }

/-- Whether `_schedule_retry` escalates. -/
def exhausted (retryCount : Nat) (maxAttempts : Int) : Bool := (retryCount : Int) ≥ maxAttempts - 1

/-- `_schedule_retry` from the counter and the cap it read. -/
def scheduleRetry (now : Timestamp) (db : Db) (id : Nat) (retryCount : Nat) (maxAttempts : Int)
    (output runnerLogs : Option String) : Db :=
  if exhausted retryCount maxAttempts then escalate now db id retryCount maxAttempts output runnerLogs
  else retry now db id retryCount output runnerLogs

/-- `hint in s`. -/
def containsText (hint s : String) : Bool := s.toList.tails.any hint.toList.isPrefixOf

def isCredentialError (error : String) : Bool :=
  ["Permission denied", "publickey", "authentication failed"].any (containsText · error)

/-- The branch of the `GitSkillsError` handler at its cap. -/
def gitReview (now : Timestamp) (db : Db) (id : Nat) (error : String) : Db :=
  db.modify id fun t =>
    { t with
      status := .review
      position := nextPosition db .review
      output := some error
      updatedBy := some "system"
      updatedAt := now
      tags := if isCredentialError error then addTag "Credentials" t.tags else t.tags }

/-! ## The next occurrence (`_reschedule_if_repeating`) -/

/-- The snapshot a coroutine works on. -/
structure DequeuedTask where
  id : Nat
  title : String
  description : Option String
  category : Option String
  profileId : Option Nat
  repeatInterval : Option String
  repeatUntil : Option Timestamp
  tags : List String
  createdBy : Option String
  isEval : Bool
  deriving DecidableEq, Repr

/-- `DequeuedTask.from_orm`. -/
def DequeuedTask.fromOrm (id : Nat) (t : Task) : DequeuedTask :=
  ⟨id, t.title, t.description, t.category, t.profileId, t.repeatInterval, t.repeatUntil, t.tags, t.createdBy, t.isEval⟩

def nextOccurrence (now executeAt : Timestamp) (db : Db) (task : DequeuedTask) : Task where
  title := task.title
  description := task.description
  status := .scheduled
  createdAt := now
  updatedAt := now
  category := task.category
  executeAt := some executeAt
  repeatInterval := task.repeatInterval
  repeatUntil := task.repeatUntil
  position := nextPosition db .scheduled
  output := none
  runnerLogs := none
  questions := none
  retryCount := 0
  heartbeatAt := none
  profileId := task.profileId
  createdBy := some "system"
  updatedBy := none
  isEval := task.isEval
  tags := task.tags

/-! ## Dispatch, heartbeat, promotion, deletion -/

/-- The status update of `_poll_and_dispatch`. -/
def dispatch (now : Timestamp) (db : Db) (id : Nat) : Db :=
  db.modify id fun t =>
    { t with status := .running, heartbeatAt := some now, updatedBy := some "system", updatedAt := now }

/-- One beat of `_heartbeat_loop`; `updated_at` moves with every update of the row. -/
def heartbeat (now : Timestamp) (db : Db) (id : Nat) : Db :=
  db.modify id fun t => { t with heartbeatAt := some now, updatedAt := now }

/-- What `promote_due_tasks` (scheduler.py) does to one due task. -/
def promote (now : Timestamp) (db : Db) (id : Nat) : Db :=
  db.modify id fun t => { t with status := .pending, position := nextPosition db .pending, updatedAt := now }

def due (now : Timestamp) (t : Task) : Bool :=
  t.status = .scheduled && t.executeAt.any (· ≤ now)

/-- `delete_task` (main.py): the row stays, whatever its status was. -/
def deleteTask (now : Timestamp) (db : Db) (id : Nat) : Db :=
  db.modify id fun t => { t with status := .deleted, updatedAt := now }

/-! ## Zombies (`recover_zombie_tasks`, zombie_cleanup.py) -/

def zombieTimeoutSeconds : Int := 300
def maxRetries : Nat := 5

/-- The rows the sweep selects: running, and silent for longer than the timeout. -/
def stale (now : Timestamp) (t : Task) : Bool :=
  let cutoff := now - zombieTimeoutSeconds * 1000000
  t.status = .running &&
    match t.heartbeatAt with
    | some beat => beat < cutoff
    | none => t.updatedAt < cutoff

/-- A selected row, as it was loaded, and the time the sweep began. -/
structure Zombie where
  id : Nat
  loaded : Task
  now : Timestamp
  deriving DecidableEq, Repr

/-- An assignment to a loaded attribute is written back only if it changes the value. -/
def assign {α : Type} [DecidableEq α] (loaded new current : α) : α := if new = loaded then current else new

def zombieBackoff (retryCount : Nat) : Nat := 2 ^ retryCount

def zombieMessage (staleDuration : Int) (retryCount : Nat) : String :=
  "Task recovered from zombie state after " ++ toString staleDuration ++ "s without heartbeat. " ++
    "Retry count (" ++ toString retryCount ++ ") has reached the maximum (" ++ toString maxRetries ++ "). " ++
    "Moved to review for manual inspection."

def staleDuration (z : Zombie) : Int := (z.now - z.loaded.heartbeatAt.getD z.loaded.updatedAt) / 1000000

/-- The status a recovered task is given. -/
def Zombie.target (z : Zombie) : Status := if z.loaded.retryCount ≥ maxRetries then .review else .scheduled

def recoverZombie (db : Db) (z : Zombie) : Db :=
  db.modify z.id fun t =>
    let l := z.loaded
    if l.retryCount ≥ maxRetries then
      { t with
        status := assign l.status .review t.status
        position := assign l.position (nextPosition db .review) t.position
        output := assign l.output (some (zombieMessage (staleDuration z) l.retryCount)) t.output
        updatedBy := assign l.updatedBy (some "system") t.updatedBy
        updatedAt := assign l.updatedAt z.now t.updatedAt
        heartbeatAt := assign l.heartbeatAt none t.heartbeatAt }
    else
      { t with
        status := assign l.status .scheduled t.status
        position := assign l.position (nextPosition db .scheduled) t.position
        retryCount := assign l.retryCount (l.retryCount + 1) t.retryCount
        executeAt := assign l.executeAt (some (z.now + minutes (zombieBackoff l.retryCount))) t.executeAt
        updatedBy := assign l.updatedBy (some "system") t.updatedBy
        updatedAt := assign l.updatedAt z.now t.updatedAt
        heartbeatAt := assign l.heartbeatAt none t.heartbeatAt }

/-! ## Which rows there are, and their statuses -/

def Db.status (db : Db) (id : Nat) : Option Status := (db.get id).map (·.status)

def Db.has (db : Db) (id : Nat) : Prop := (db.get id).isSome = true

instance (db : Db) (id : Nat) : Decidable (db.has id) := inferInstanceAs (Decidable (_ = true))

theorem has_modify (db : Db) (id : Nat) (f : Task → Task) {j : Nat} (h : db.has j) : (db.modify id f).has j := by
  unfold Db.has at *
  by_cases e : j = id
  · subst e; simpa using h
  · rwa [Db.modify_other db f e]

theorem has_insert (db : Db) (t : Task) {j : Nat} (h : db.has j) : (db.insert t).has j := by
  unfold Db.has at *
  by_cases e : j = db.nextId
  · subst e; simp
  · rwa [Db.insert_other db t e]

theorem not_has_nextId (db : Db) : ¬ db.has db.nextId := by simp [Db.has, db.fresh]

theorem has_of_status {db : Db} {id : Nat} {st : Status} (h : db.status id = some st) : db.has id := by
  obtain ⟨t, ht, -⟩ := Option.map_eq_some_iff.mp h
  simp [Db.has, ht]

theorem status_modify_other (db : Db) {id j : Nat} (f : Task → Task) (h : j ≠ id) :
    (db.modify id f).status j = db.status j := by simp [Db.status, Db.modify_other db f h]

theorem status_modify_keep (db : Db) {id : Nat} {f : Task → Task} (hf : ∀ t, (f t).status = t.status) (j : Nat) :
    (db.modify id f).status j = db.status j := by
  by_cases e : j = id
  · subst e; simp only [Db.status, Db.modify_self, Option.map_map]; congr 1; funext t; exact hf t
  · exact status_modify_other db f e

theorem status_insert_other (db : Db) {j : Nat} (t : Task) (h : j ≠ db.nextId) :
    (db.insert t).status j = db.status j := by simp [Db.status, Db.insert_other db t h]

theorem status_modify {db : Db} {id : Nat} {f : Task → Task} {st : Status} (hf : ∀ t, (f t).status = st)
    (h : db.has id) : (db.modify id f).status = Function.update db.status id (some st) := by
  funext j
  by_cases e : j = id
  · subst e
    obtain ⟨t, ht⟩ := Option.isSome_iff_exists.mp h
    simp [Db.status, ht, hf]
  · rw [Function.update_of_ne e]; exact status_modify_other db f e

theorem status_insert (db : Db) (t : Task) :
    (db.insert t).status = Function.update db.status db.nextId (some t.status) := by
  funext j
  by_cases e : j = db.nextId
  · subst e; simp [Db.status]
  · rw [Function.update_of_ne e]; exact status_insert_other db t e

@[simp] theorem heartbeat_status (now : Timestamp) (db : Db) (id j : Nat) :
    (heartbeat now db id).status j = db.status j := by
  unfold heartbeat
  exact status_modify_keep db (by simp) j

theorem backoffMinutes_le (retryCount : Nat) : backoffMinutes retryCount ≤ maxRetryBackoffMinutes := Nat.min_le_right ..

/-- Zombie recovery has no cap of its own on the backoff; its cap on the counter is one. -/
theorem zombieBackoff_le {retryCount : Nat} (h : retryCount < maxRetries) :
    zombieBackoff retryCount ≤ maxRetryBackoffMinutes := by
  have : 2 ^ retryCount ≤ 2 ^ 4 := Nat.pow_le_pow_right (by omega) (by unfold maxRetries at h; omega)
  unfold zombieBackoff maxRetryBackoffMinutes
  omega

/-- The row a sweep selected was running, so its status is always written. -/
theorem recoverZombie_status {db : Db} {z : Zombie} (hl : z.loaded.status = .running) (h : db.has z.id) :
    (recoverZombie db z).status = Function.update db.status z.id (some z.target) := by
  refine status_modify (fun t => ?_) h
  simp only [Zombie.target]
  split <;> simp [assign, hl]

theorem deleteTask_status {now : Timestamp} {db : Db} {id : Nat} (h : db.has id) :
    (deleteTask now db id).status = Function.update db.status id (some .deleted) := status_modify (fun _ => rfl) h

theorem stale_running {now : Timestamp} {t : Task} (h : stale now t = true) : t.status = .running := by
  simp only [stale, Bool.and_eq_true, decide_eq_true_eq] at h
  exact h.1

theorem due_scheduled {now : Timestamp} {t : Task} (h : due now t = true) : t.status = .scheduled := by
  simp only [due, Bool.and_eq_true, decide_eq_true_eq] at h
  exact h.1

/-! ## A repeating task at work -/

def repeatingTask (interval : String) : Task where
  title := "report"
  description := none
  status := .running
  createdAt := 0
  updatedAt := 0
  category := some "repeating"
  executeAt := none
  repeatInterval := some interval
  repeatUntil := none
  position := 1
  output := none
  runnerLogs := none
  questions := none
  retryCount := 0
  heartbeatAt := none
  profileId := none
  createdBy := some "system"
  updatedBy := none
  isEval := false
  tags := []

def dbOf (t : Task) : Db := Db.insert ⟨0, fun _ => none, Db.fresh_none⟩ t

end Errand.Server.Tasks

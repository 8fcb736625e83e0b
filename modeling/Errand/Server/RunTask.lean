import Errand.Lib.Machine
import Errand.Server.Intervals
import Errand.Server.Tasks

/-
  Errand.Server.RunTask — the coroutine that processes one dispatched task
  (`TaskManager._run_task`, errand/task_manager.py), with `_schedule_retry` and
  `_reschedule_if_repeating`, which run inside it.

  A run is at one of its program points; each step is one await: a transaction, a read, a
  published event, the container. The answer to it comes from outside: it went through,
  it raised, the run was cancelled there. A commit that raised or was cancelled may have
  landed all the same. An exception or a cancellation goes to the handler of the part of
  the try block the point lies in (`handler`); the retry of the cancellation handler is
  shielded, so a second cancellation does not stop it. Reading JSON out of the runner's
  output is left open.

  Proved:
  - `runStep_cases`: a step changes the database only by the one transaction of its point.
  - `result_stands`: a committed `completed` or `review` is not undone by the same run,
    in every run in which nothing raises inside the try block after that commit.
  - `overlong_interval_reruns`: a completed task whose interval does not fit a `timedelta`
    is scheduled again.
-/

namespace Errand.Server.RunTask

open Errand.Lib Errand.Server.Intervals Errand.Server.Tasks

/-- The part of `_run_task` a retry is scheduled from. -/
inductive Handler where
  | body
  | git
  | cancelled
  | failed
  deriving DecidableEq, Repr

inductive Pc where
  /-- At the semaphore. -/
  | waiting
  | processing
  | recording (parsed : TaskRunnerOutput) (stderr : String)
  | recorded (target : Status)
  | rescheduling (task : DequeuedTask) (interval : Nat)
  | rescheduled
  | retryRead (h : Handler) (output runnerLogs : Option String)
  | retryWrite (h : Handler) (retryCount : Nat) (maxAttempts : Int) (output runnerLogs : Option String)
  | retried (h : Handler)
  | gitRead (error : String)
  | gitReview (error : String)
  | gitReviewed
  | done
  deriving DecidableEq, Repr

/-- What a transaction of the run did. -/
inductive Commit where
  | result (target : Status)
  | retry
  | escalate
  | gitReview
  | successor (id : Nat)
  deriving DecidableEq, Repr

inductive Answer where
  /-- The semaphore let the run in. -/
  | entered
  /-- `_process_task` returned. -/
  | result (stdout stderr : String)
  | gitSkillsError (error : String)
  /-- The setting was resolved, for `_schedule_retry`. -/
  | maxAttempts (setting : Setting)
  | ok
  | raises (landed : Bool)
  | cancelled (landed : Bool)
  deriving DecidableEq, Repr

def handler : Pc → Option Handler
  | .waiting | .done => none
  | .processing | .recording .. | .recorded _ | .rescheduling .. | .rescheduled => some .body
  | .retryRead h .. | .retryWrite h .. | .retried h => some h
  | .gitRead _ | .gitReview _ | .gitReviewed => some .git

/-- Where an exception leads. -/
def raised (pc : Pc) : Pc :=
  match handler pc with
  | some .body => .retryRead .failed none none
  | _ => .done

/-- Where a cancellation leads. -/
def interrupted (pc : Pc) : Pc :=
  match handler pc with
  | some .body => .retryRead .cancelled (some "Processing cancelled during shutdown") none
  | some .cancelled => pc
  | _ => .done

section Steps

variable (extractJson : String → Option String) (validate : String → Option TaskRunnerOutput)

def fullOutput (stdout stderr : String) : String :=
  if stderr.isEmpty then stdout else PyStr.stripString (stderr ++ "\n" ++ stdout)

def afterProcess (stdout stderr : String) : Pc :=
  match if stdout.isEmpty then none else extractJson stdout with
  | none => .retryRead .body (some (fullOutput stdout stderr)) (some stderr)
  | some cleanStdout =>
    match validate cleanStdout with
    | none => .retryRead .body (some (fullOutput stdout stderr)) (some stderr)
    | some parsed => .recording parsed stderr

/-- Whether `_reschedule_if_repeating` gets as far as the interval. -/
def repeats (now : Timestamp) (task : DequeuedTask) : Bool :=
  task.category == some "repeating" && !task.repeatUntil.any (now > ·)

def rescheduleIfRepeating (now : Timestamp) (task : DequeuedTask) : Pc :=
  if repeats now task then
    match parseInterval (task.repeatInterval.getD "").toList with
    | .error _ => raised (.recorded .completed)
    | .ok none => .done
    | .ok (some interval) => .rescheduling task interval
  else .done

/-- The transaction a point is about to commit. -/
def transaction (now : Timestamp) (db : Db) (task : DequeuedTask) : Pc → Option (Db × Commit)
  | .recording parsed stderr =>
    let target := targetStatus task.createdBy parsed
    some (recordResult now db task.id target parsed stderr, .result target)
  | .rescheduling snapshot interval =>
    match addInterval now interval with
    | .error _ => none
    | .ok executeAt => some (db.insert (nextOccurrence now executeAt db snapshot), .successor db.nextId)
  | .retryWrite _ retryCount maxAttempts output runnerLogs =>
    some (scheduleRetry now db task.id retryCount maxAttempts output runnerLogs,
      if exhausted retryCount maxAttempts then .escalate else .retry)
  | .gitReview error => some (Tasks.gitReview now db task.id error, .gitReview)
  | _ => none

structure Outcome where
  db : Db
  pc : Pc
  commit : Option Commit

/-- The point after a transaction. -/
def next (task : DequeuedTask) : Pc → Pc
  | .recording parsed _ => .recorded (targetStatus task.createdBy parsed)
  | .rescheduling .. => .rescheduled
  | .retryWrite h .. => .retried h
  | .gitReview _ => .gitReviewed
  | pc => pc

def proceed (now : Timestamp) (db : Db) (task : DequeuedTask) : Pc → Option Outcome
  | .recorded target =>
    (db.get task.id).map fun t =>
      ⟨db, if target = .completed then rescheduleIfRepeating now (.fromOrm task.id t) else .done, none⟩
  | .rescheduled => some ⟨db, .done, none⟩
  | .retried _ => some ⟨db, .done, none⟩
  | .gitRead error =>
    (db.get task.id).map fun t =>
      ⟨db, if t.retryCount ≥ maxGitRetries then .gitReview error else .retryRead .git (some error) none, none⟩
  | .gitReviewed => some ⟨db, .done, none⟩
  | .rescheduling snapshot interval =>
    match transaction now db task (.rescheduling snapshot interval) with
    | none => some ⟨db, raised (.rescheduling snapshot interval), none⟩
    | some (db', c) => some ⟨db', .rescheduled, some c⟩
  | pc => (transaction now db task pc).map fun (db', c) => ⟨db', next task pc, some c⟩

/-- What an await that did not go through left behind. -/
def land (now : Timestamp) (db : Db) (task : DequeuedTask) (pc pc' : Pc) (landed : Bool) : Option Outcome :=
  if landed then (transaction now db task pc).map fun (db', c) => ⟨db', pc', some c⟩ else some ⟨db, pc', none⟩

def runStep (now : Timestamp) (db : Db) (task : DequeuedTask) (pc : Pc) : Answer → Option Outcome
  | .entered => if pc = .waiting then some ⟨db, .processing, none⟩ else none
  | .result stdout stderr =>
    if pc = .processing then some ⟨db, afterProcess extractJson validate stdout stderr, none⟩ else none
  | .gitSkillsError error => if pc = .processing then some ⟨db, .gitRead error, none⟩ else none
  | .maxAttempts setting =>
    match pc with
    | .retryRead h output runnerLogs =>
      (db.get task.id).map fun t =>
        ⟨db, .retryWrite h t.retryCount (getMaxRetryAttempts setting) output runnerLogs, none⟩
    | _ => none
  | .ok => proceed now db task pc
  | .raises landed => if handler pc = none then none else land now db task pc (raised pc) landed
  | .cancelled landed =>
    if pc = .done then none
    else if handler pc = some .cancelled then if landed then none else some ⟨db, pc, none⟩
    else land now db task pc (interrupted pc) landed

/-! ## What a step can do -/

/-- A point from which the run may still commit a result and then a next occurrence. -/
def able : Pc → Bool
  | .waiting | .processing | .recording .. | .recorded _ | .rescheduling .. => true
  | _ => false

theorem handler_raised {pc : Pc} (hb : handler pc ≠ some .body) : raised pc = .done := by
  unfold raised
  split
  · exact absurd ‹_› hb
  · rfl

theorem handler_interrupted {pc : Pc} (hb : handler pc ≠ some .body) (hc : handler pc ≠ some .cancelled) :
    interrupted pc = .done := by
  unfold interrupted
  split
  · exact absurd ‹_› hb
  · exact absurd ‹_› hc
  · rfl

theorem able_raised (pc : Pc) : able (raised pc) = false := by
  unfold raised; split <;> rfl

theorem able_interrupted (pc : Pc) : able (interrupted pc) = false := by
  unfold interrupted
  split
  · rfl
  · rename_i h; cases pc <;> first | rfl | cases h
  · rfl

theorem able_next {task : DequeuedTask} {pc : Pc} (h : able (next task pc) = true) : able pc = true := by
  cases pc <;> first | rfl | exact h

variable {extractJson validate}
variable {now : Timestamp} {db : Db} {task : DequeuedTask} {pc : Pc} {a : Answer} {o : Outcome}

/-- The database after a step: as it was, or as the point's transaction leaves it. -/
inductive Effect (now : Timestamp) (db : Db) (task : DequeuedTask) (pc : Pc) : Db → Option Commit → Prop
  | nothing : Effect now db task pc db none
  | committed {db' : Db} {c : Commit} : transaction now db task pc = some (db', c) → Effect now db task pc db' (some c)

theorem proceed_effect (h : proceed now db task pc = some o) : Effect now db task pc o.db o.commit := by
  unfold proceed at h
  split at h
  · obtain ⟨t, -, rfl⟩ := Option.map_eq_some_iff.mp h; exact .nothing
  · cases h; exact .nothing
  · cases h; exact .nothing
  · obtain ⟨t, -, rfl⟩ := Option.map_eq_some_iff.mp h; exact .nothing
  · cases h; exact .nothing
  · split at h
    · cases h; exact .nothing
    · rename_i ht; cases h; exact .committed ht
  · obtain ⟨⟨db', c⟩, ht, rfl⟩ := Option.map_eq_some_iff.mp h; exact .committed ht

theorem land_effect {pc' : Pc} {landed : Bool} (h : land now db task pc pc' landed = some o) :
    o.pc = pc' ∧ Effect now db task pc o.db o.commit := by
  unfold land at h
  split at h
  · obtain ⟨⟨db', c⟩, ht, rfl⟩ := Option.map_eq_some_iff.mp h; exact ⟨rfl, .committed ht⟩
  · cases h; exact ⟨rfl, .nothing⟩

theorem runStep_cases (h : runStep extractJson validate now db task pc a = some o) :
    Effect now db task pc o.db o.commit := by
  cases a with
  | entered => simp only [runStep] at h; split at h <;> cases h; exact .nothing
  | result stdout stderr => simp only [runStep] at h; split at h <;> cases h; exact .nothing
  | gitSkillsError error => simp only [runStep] at h; split at h <;> cases h; exact .nothing
  | maxAttempts setting =>
    simp only [runStep] at h
    split at h
    · obtain ⟨t, -, rfl⟩ := Option.map_eq_some_iff.mp h; exact .nothing
    · cases h
  | ok => exact proceed_effect h
  | raises landed =>
    simp only [runStep] at h
    split at h
    · cases h
    · exact (land_effect h).2
  | cancelled landed =>
    simp only [runStep] at h
    split at h
    · cases h
    · split at h
      · split at h
        · cases h
        · cases h; exact .nothing
      · exact (land_effect h).2

def Answer.commits : Answer → Bool
  | .ok => true
  | .raises landed | .cancelled landed => landed
  | _ => false

/-- What a step commits. -/
def commitOf (now : Timestamp) (db : Db) (task : DequeuedTask) (pc : Pc) (a : Answer) : Option Commit :=
  if a.commits then (transaction now db task pc).map (·.2) else none

theorem proceed_commitOf (h : proceed now db task pc = some o) : o.commit = (transaction now db task pc).map (·.2) := by
  unfold proceed at h
  split at h
  · obtain ⟨t, -, rfl⟩ := Option.map_eq_some_iff.mp h; rfl
  · cases h; rfl
  · cases h; rfl
  · obtain ⟨t, -, rfl⟩ := Option.map_eq_some_iff.mp h; rfl
  · cases h; rfl
  · split at h
    · rename_i ht; cases h; simp [ht]
    · rename_i ht; cases h; simp [ht]
  · obtain ⟨⟨db', c⟩, ht, rfl⟩ := Option.map_eq_some_iff.mp h; simp [ht]

theorem land_commitOf {pc' : Pc} {landed : Bool} (h : land now db task pc pc' landed = some o) :
    o.commit = if landed then (transaction now db task pc).map (·.2) else none := by
  unfold land at h
  split at h
  · rename_i hl
    obtain ⟨⟨db', c⟩, ht, rfl⟩ := Option.map_eq_some_iff.mp h
    simp [hl, ht]
  · rename_i hl; cases h; simp [hl]

theorem runStep_commitOf (h : runStep extractJson validate now db task pc a = some o) :
    o.commit = commitOf now db task pc a := by
  cases a with
  | entered => simp only [runStep] at h; split at h <;> cases h; rfl
  | result stdout stderr => simp only [runStep] at h; split at h <;> cases h; rfl
  | gitSkillsError error => simp only [runStep] at h; split at h <;> cases h; rfl
  | maxAttempts setting =>
    simp only [runStep] at h
    split at h
    · obtain ⟨t, -, rfl⟩ := Option.map_eq_some_iff.mp h; rfl
    · cases h
  | ok => exact proceed_commitOf h
  | raises landed =>
    simp only [runStep] at h
    split at h
    · cases h
    · exact land_commitOf h
  | cancelled landed =>
    simp only [runStep] at h
    split at h
    · cases h
    · split at h
      · split at h
        · cases h
        · rename_i hl; cases h; simp [commitOf, Answer.commits, hl]
      · exact land_commitOf h

/-! ## What a transaction does to the statuses -/

/-- The status a commit gives the run's own task. -/
def Commit.status : Commit → Option Status
  | .result target => some target
  | .retry => some .scheduled
  | .escalate | .gitReview => some .review
  | .successor _ => none

theorem transaction_modify {db' : Db} {c : Commit} {st : Status} (h : transaction now db task pc = some (db', c))
    (hc : c.status = some st) : ∃ f, db' = db.modify task.id f ∧ ∀ t, (f t).status = st := by
  cases pc with
  | recording parsed stderr => cases h; cases hc; exact ⟨_, rfl, fun _ => rfl⟩
  | rescheduling snapshot interval =>
    simp only [transaction] at h
    split at h
    · cases h
    · cases h; cases hc
  | retryWrite hd rc n output logs =>
    simp only [transaction, scheduleRetry] at h
    split at h
    · cases h; cases hc; exact ⟨_, rfl, fun _ => rfl⟩
    · cases h; cases hc; exact ⟨_, rfl, fun _ => rfl⟩
  | gitReview error => cases h; cases hc; exact ⟨_, rfl, fun _ => rfl⟩
  | _ => cases h

theorem transaction_successor {db' : Db} {n : Nat} (h : transaction now db task pc = some (db', .successor n)) :
    (∃ t, db' = db.insert t ∧ t.status = .scheduled) ∧ ∃ snapshot interval, pc = .rescheduling snapshot interval := by
  cases pc with
  | rescheduling snapshot interval =>
    simp only [transaction] at h
    split at h
    · cases h
    · cases h; exact ⟨⟨_, rfl, rfl⟩, _, _, rfl⟩
  | recording | gitReview => simp [transaction] at h
  | retryWrite hd rc n output logs => simp only [transaction, Option.some.injEq, Prod.mk.injEq] at h; split at h <;> cases h.2
  | _ => cases h

theorem targetStatus_cases (createdBy : Option String) (parsed : TaskRunnerOutput) :
    targetStatus createdBy parsed = .completed ∨ targetStatus createdBy parsed = .review := by
  unfold targetStatus
  split
  · exact .inl rfl
  · split
    · exact .inl rfl
    · exact .inr rfl

/-- Only a retry puts the task back on the schedule. -/
theorem transaction_queues {db' : Db} {c : Commit} (h : transaction now db task pc = some (db', c)) {st : Status}
    (hc : c.status = some st) : c = .retry ∨ st = .completed ∨ st = .review := by
  cases pc with
  | recording parsed stderr => cases h; cases hc; exact .inr (targetStatus_cases ..)
  | rescheduling snapshot interval =>
    simp only [transaction] at h
    split at h
    · cases h
    · cases h; cases hc
  | retryWrite hd rc n output logs =>
    simp only [transaction, Option.some.injEq, Prod.mk.injEq] at h
    obtain ⟨-, rfl⟩ := h
    split
    · rename_i he; simp only [he, if_true] at hc; cases hc; exact .inr (.inr rfl)
    · exact .inl rfl
  | gitReview error => cases h; cases hc; exact .inr (.inr rfl)
  | _ => cases h

/-! ## Who may still commit a next occurrence -/

theorem proceed_able (h : proceed now db task pc = some o) (ha : able o.pc = true) :
    able pc = true ∧ ∀ n, o.commit ≠ some (.successor n) := by
  unfold proceed at h
  split at h
  · obtain ⟨t, -, rfl⟩ := Option.map_eq_some_iff.mp h; exact ⟨rfl, fun n => by simp⟩
  · cases h; cases ha
  · cases h; cases ha
  · obtain ⟨t, -, rfl⟩ := Option.map_eq_some_iff.mp h
    simp only at ha
    split at ha <;> cases ha
  · cases h; cases ha
  · split at h
    · cases h; rw [able_raised] at ha; cases ha
    · cases h; cases ha
  · rename_i hn
    obtain ⟨⟨db', c⟩, ht, rfl⟩ := Option.map_eq_some_iff.mp h
    refine ⟨able_next ha, fun n hc => ?_⟩
    cases hc
    obtain ⟨-, snapshot, interval, rfl⟩ := transaction_successor ht
    exact hn snapshot interval rfl

/-- A point from which a next occurrence may still come is reached only from such a
    point, and by no step that commits one. -/
theorem runStep_able (h : runStep extractJson validate now db task pc a = some o) (ha : able o.pc = true) :
    able pc = true ∧ ∀ n, o.commit ≠ some (.successor n) := by
  cases a with
  | entered =>
    simp only [runStep] at h
    split at h
    · rename_i hpc; cases h; exact ⟨by rw [hpc]; rfl, fun n => by simp⟩
    · cases h
  | result stdout stderr =>
    simp only [runStep] at h
    split at h
    · rename_i hpc; cases h; exact ⟨by rw [hpc]; rfl, fun n => by simp⟩
    · cases h
  | gitSkillsError error =>
    simp only [runStep] at h
    split at h
    · cases h; cases ha
    · cases h
  | maxAttempts setting =>
    simp only [runStep] at h
    split at h
    · obtain ⟨t, -, rfl⟩ := Option.map_eq_some_iff.mp h; cases ha
    · cases h
  | ok => exact proceed_able h ha
  | raises landed =>
    simp only [runStep] at h
    split at h
    · cases h
    · rw [(land_effect h).1, able_raised] at ha; cases ha
  | cancelled landed =>
    simp only [runStep] at h
    split at h
    · cases h
    · split at h
      · rename_i hc
        split at h
        · cases h
        · cases h
          cases pc <;> first | (cases ha; done) | cases hc
      · rw [(land_effect h).1, able_interrupted] at ha; cases ha

/-- A point after which the run commits nothing more. -/
def spent : Pc → Bool
  | .retried h => h ≠ .body
  | .gitReviewed | .done => true
  | _ => false

theorem transaction_spent (hp : spent pc = true) : transaction now db task pc = none := by
  cases pc <;> first | rfl | cases hp

theorem handler_spent (hp : spent pc = true) : handler pc ≠ some .body := by
  cases pc <;> simp_all [spent, handler]

theorem runStep_spent (h : runStep extractJson validate now db task pc a = some o) (hp : spent pc = true) :
    spent o.pc = true ∧ o.commit = none := by
  refine ⟨?_, by rw [runStep_commitOf h]; simp [commitOf, transaction_spent hp]⟩
  have hb := handler_spent hp
  cases a with
  | entered => simp only [runStep] at h; split at h <;> cases h; subst_vars; cases hp
  | result stdout stderr => simp only [runStep] at h; split at h <;> cases h; subst_vars; cases hp
  | gitSkillsError error => simp only [runStep] at h; split at h <;> cases h; subst_vars; cases hp
  | maxAttempts setting =>
    simp only [runStep] at h
    split at h
    · cases hp
    · cases h
  | ok =>
    cases pc with
    | retried hd => cases h; rfl
    | gitReviewed => cases h; rfl
    | done => cases h
    | _ => cases hp
  | raises landed =>
    simp only [runStep] at h
    split at h
    · cases h
    · rw [(land_effect h).1, handler_raised hb]; rfl
  | cancelled landed =>
    simp only [runStep] at h
    split at h
    · cases h
    · split at h
      · split at h
        · cases h
        · cases h; exact hp
      · rename_i hc
        rw [(land_effect h).1, handler_interrupted hb hc]; rfl

end Steps

/-! ## A committed result stands -/

/-- The task is out of the run's hands: `completed` or `review` is committed. -/
def Commit.final : Commit → Bool
  | .result _ | .escalate | .gitReview => true
  | .retry | .successor _ => false

def Commit.undoes : Commit → Bool
  | .retry | .escalate => true
  | _ => false

/-- No commit of the log undoes a final one before it. -/
def Stands (log : List Commit) : Prop := log.Pairwise fun c d => c.final = true → d.undoes = false

/-- One run, among others that may do anything to the database. -/
structure Run where
  db : Db
  pc : Pc
  log : List Commit

inductive RunEv where
  | step (now : Timestamp) (a : Answer)
  | others (db : Db)

def Run.step (extractJson : String → Option String) (validate : String → Option TaskRunnerOutput)
    (task : DequeuedTask) (s : Run) : RunEv → Option Run
  | .step now a =>
    (runStep extractJson validate now s.db task s.pc a).map fun o => ⟨o.db, o.pc, s.log ++ o.commit.toList⟩
  | .others db => some { s with db := db }

def run (extractJson : String → Option String) (validate : String → Option TaskRunnerOutput) (task : DequeuedTask) :
    Machine Run RunEv :=
  ⟨fun s => s.pc = .waiting ∧ s.log = [], Run.step extractJson validate task⟩

/-- The date arithmetic of a reschedule raises here, whatever the database answers. -/
def overflows (now : Timestamp) (db : Db) (task : DequeuedTask) : Pc → Bool
  | .recorded .completed =>
    (db.get task.id).any fun t =>
      repeats now (.fromOrm task.id t) && !(parseInterval (t.repeatInterval.getD "").toList).isOk
  | .rescheduling _ interval => !(addInterval now interval).isOk
  | _ => false

def fails (now : Timestamp) (db : Db) (task : DequeuedTask) (pc : Pc) : Answer → Bool
  | .raises _ | .cancelled _ => true
  | .ok => overflows now db task pc
  | _ => false

/-- A final commit is in the log, or this very step makes one. -/
def finalBy (now : Timestamp) (db : Db) (task : DequeuedTask) (pc : Pc) (a : Answer) (log : List Commit) : Bool :=
  log.any Commit.final || (commitOf now db task pc a).any Commit.final

/-- Nothing raises and nobody cancels inside the try block after a final commit. -/
def Undisturbed (task : DequeuedTask) (s : Run) : RunEv → Prop
  | .others _ => True
  | .step now a =>
    finalBy now s.db task s.pc a s.log = true → handler s.pc = some .body → fails now s.db task s.pc a = false

/-- The points after a commit. -/
def settled : Pc → Bool
  | .recorded _ | .rescheduling .. | .rescheduled | .retried _ | .gitReviewed | .done => true
  | _ => false

structure Sound (s : Run) : Prop where
  stands : Stands s.log
  settles : s.log.any Commit.final = true → settled s.pc = true

theorem stands_append {log : List Commit} (h : Stands log) {c : Option Commit}
    (hc : log.any Commit.final = true → ∀ d, c = some d → d.undoes = false) : Stands (log ++ c.toList) := by
  cases c with
  | none => simpa using h
  | some d =>
    refine List.pairwise_append.mpr ⟨h, List.pairwise_singleton .., fun b hb e he hf => ?_⟩
    obtain rfl := List.mem_singleton.mp he
    exact hc (List.any_eq_true.mpr ⟨b, hb, hf⟩) e rfl

section

variable {extractJson : String → Option String} {validate : String → Option TaskRunnerOutput}
variable {now : Timestamp} {db : Db} {task : DequeuedTask} {pc : Pc} {o : Outcome}

/-- From a settled point only the next occurrence is committed. -/
theorem transaction_settled {db' : Db} {c : Commit} (hp : settled pc = true)
    (h : transaction now db task pc = some (db', c)) : c.undoes = false ∧ handler pc = some .body := by
  cases pc with
  | rescheduling t i =>
    simp only [transaction] at h
    split at h
    · cases h
    · cases h; exact ⟨rfl, rfl⟩
  | recorded | rescheduled | retried | gitReviewed | done => cases h
  | _ => cases hp

theorem settled_next {db' : Db} {c : Commit} (h : transaction now db task pc = some (db', c)) :
    settled (next task pc) = true := by
  cases pc <;> first | rfl | cases h

theorem settled_rescheduleIfRepeating {t : DequeuedTask}
    (hx : (repeats now t && !(parseInterval (t.repeatInterval.getD "").toList).isOk) = false) :
    settled (rescheduleIfRepeating now t) = true := by
  unfold rescheduleIfRepeating
  split
  · rename_i hr
    split
    · rename_i e he
      simp [hr, he, Except.isOk, Except.toBool] at hx
    · rfl
    · rfl
  · rfl

/-- A settled point leads to a settled one when its await goes through. -/
theorem proceed_settled (hp : settled pc = true) (hx : overflows now db task pc = false)
    (h : proceed now db task pc = some o) : settled o.pc = true := by
  cases pc with
  | recorded target =>
    obtain ⟨t, ht, rfl⟩ := Option.map_eq_some_iff.mp h
    simp only
    split
    · rename_i hc
      subst hc
      simp only [overflows, ht, Option.any_some] at hx
      exact settled_rescheduleIfRepeating hx
    · rfl
  | rescheduling t i =>
    simp only [proceed, transaction] at h
    split at h
    · rename_i hn
      split at hn
      · rename_i e he
        simp [overflows, he, Except.isOk, Except.toBool] at hx
      · cases hn
    · cases h; rfl
  | rescheduled => cases h; rfl
  | retried => cases h; rfl
  | gitReviewed => cases h; rfl
  | done => cases h
  | _ => cases hp

/-- A transaction that goes through leads to a settled point. -/
theorem proceed_commit {c : Commit} (h : proceed now db task pc = some o) (hc : o.commit = some c) :
    settled o.pc = true := by
  unfold proceed at h
  split at h
  · obtain ⟨t, -, rfl⟩ := Option.map_eq_some_iff.mp h; cases hc
  · cases h; cases hc
  · cases h; cases hc
  · obtain ⟨t, -, rfl⟩ := Option.map_eq_some_iff.mp h; cases hc
  · cases h; cases hc
  · split at h
    · cases h; cases hc
    · cases h; rfl
  · obtain ⟨⟨db', d⟩, ht, rfl⟩ := Option.map_eq_some_iff.mp h
    exact settled_next ht

/-- An await that failed, from a sound run, with nothing of the body disturbed. -/
theorem land_sound {s : Run} {a : Answer} {landed : Bool} (h : Sound s) (hl : a.commits = landed)
    (hf : fails now s.db task s.pc a = true) (hu : Undisturbed task s (.step now a)) {pc' : Pc}
    (hd : handler s.pc ≠ some .body → pc' = .done) (ho : land now s.db task s.pc pc' landed = some o) :
    Sound ⟨o.db, o.pc, s.log ++ o.commit.toList⟩ := by
  obtain ⟨hpc, heff⟩ := land_effect ho
  have hbody : finalBy now s.db task s.pc a s.log = true → o.pc = .done := by
    intro hb
    rw [hpc]
    apply hd
    intro hh
    rw [hu hb hh] at hf
    cases hf
  obtain ⟨db', opc, c⟩ := o
  simp only at heff hbody ⊢
  cases heff with
  | nothing =>
    refine ⟨by simpa using h.stands, fun hany => ?_⟩
    rw [hbody (by simpa [finalBy] using Or.inl hany)]
    rfl
  | committed ht =>
    rename_i d
    have hland : landed = true := by
      by_contra hn
      simp only [Bool.not_eq_true] at hn
      simp only [land, hn] at ho
      cases ho
    have hfin : (s.log ++ [d]).any Commit.final = true → finalBy now s.db task s.pc a s.log = true := by
      intro hany
      simp only [List.any_append, List.any_cons, List.any_nil, Bool.or_false, Bool.or_eq_true] at hany
      simpa [finalBy, commitOf, hl, hland, ht] using hany
    refine ⟨stands_append h.stands fun hany e he => ?_, fun hany => ?_⟩
    · cases he
      exact (transaction_settled (h.settles hany) ht).1
    · rw [hbody (hfin (by simpa using hany))]
      rfl

theorem step_sound {s : Run} {a : Answer} (h : Sound s) (hu : Undisturbed task s (.step now a))
    (ho : runStep extractJson validate now s.db task s.pc a = some o) : Sound ⟨o.db, o.pc, s.log ++ o.commit.toList⟩ := by
  have idle : ∀ {pc' : Pc}, settled s.pc = false → Sound ⟨s.db, pc', s.log ++ (none : Option Commit).toList⟩ := by
    intro pc' hp
    refine ⟨by simpa using h.stands, fun hany => ?_⟩
    rw [h.settles (by simpa using hany)] at hp
    cases hp
  cases a with
  | entered =>
    simp only [runStep] at ho
    split at ho
    · rename_i hpc; cases ho; exact idle (by rw [hpc]; rfl)
    · cases ho
  | result stdout stderr =>
    simp only [runStep] at ho
    split at ho
    · rename_i hpc; cases ho; exact idle (by rw [hpc]; rfl)
    · cases ho
  | gitSkillsError error =>
    simp only [runStep] at ho
    split at ho
    · rename_i hpc; cases ho; exact idle (by rw [hpc]; rfl)
    · cases ho
  | maxAttempts setting =>
    simp only [runStep] at ho
    split at ho
    · rename_i hpc
      obtain ⟨t, -, rfl⟩ := Option.map_eq_some_iff.mp ho
      exact idle (by rw [hpc]; rfl)
    · cases ho
  | ok =>
    have heff := proceed_effect ho
    refine ⟨stands_append h.stands fun hany d hd => ?_, fun hany => ?_⟩
    · obtain ⟨db', opc, c⟩ := o
      cases heff with
      | nothing => cases hd
      | committed ht => cases hd; exact (transaction_settled (h.settles hany) ht).1
    · cases hc : o.commit with
      | some c => exact proceed_commit ho hc
      | none =>
        have hl : s.log.any Commit.final = true := by simpa [hc] using hany
        have hp := h.settles hl
        refine proceed_settled hp ?_ ho
        by_cases hb : handler s.pc = some .body
        · exact hu (by simp [finalBy, hl]) hb
        · cases hpc : s.pc <;> simp_all [overflows, handler, settled]
  | raises landed =>
    simp only [runStep] at ho
    split at ho
    · cases ho
    · exact land_sound h rfl rfl hu handler_raised ho
  | cancelled landed =>
    simp only [runStep] at ho
    split at ho
    · cases ho
    · split at ho
      · split at ho
        · cases ho
        · cases ho
          exact ⟨by simpa using h.stands, fun hany => h.settles (by simpa using hany)⟩
      · rename_i hc
        exact land_sound h rfl rfl hu (fun hb => handler_interrupted hb hc) ho

end

/-- A run in which nothing raises inside the try block after a final commit never undoes
    one: what the task was left with is never put back to `scheduled` or escalated. -/
theorem result_stands {extractJson : String → Option String} {validate : String → Option TaskRunnerOutput}
    {task : DequeuedTask} {s : Run} (h : (run extractJson validate task).ReachIf (Undisturbed task) s) : Stands s.log := by
  suffices Sound s from this.stands
  refine h.inv (fun s (hi : s.pc = .waiting ∧ s.log = []) => ?_) fun s e s' hs hu
    (hst : Run.step extractJson validate task s e = some s') => ?_
  · exact ⟨by rw [hi.2]; exact List.Pairwise.nil, fun hany => by rw [hi.2] at hany; cases hany⟩
  · cases e with
    | step now a =>
      obtain ⟨o, ho, rfl⟩ := Option.map_eq_some_iff.mp hst
      exact step_sound hs hu ho
    | others db => cases hst; exact ⟨hs.stands, hs.settles⟩

/-! ## A run that completes its task -/

/-- A runner whose every output reads as a completed result. -/
def completes : String → Option TaskRunnerOutput := fun _ => some ⟨.completed, "done", []⟩

def runOf (interval : String) : Machine Run RunEv := run some completes (.fromOrm 0 (repeatingTask interval))

def entry (interval : String) : Run := ⟨dbOf (repeatingTask interval), .waiting, []⟩

/-- The container's output, the result's commit and the read after it, with no failure. -/
def completion : List RunEv := [.step 0 .entered, .step 0 (.result "{}" ""), .step 0 .ok, .step 0 .ok]

theorem weekly_result_stands :
    ∃ s, (runOf "7 days").ReachIf (Undisturbed (.fromOrm 0 (repeatingTask "7 days"))) s ∧
      s.log = [.result .completed, .successor 1] ∧ Stands s.log := by
  have h0 : (runOf "7 days").ReachIf (Undisturbed (.fromOrm 0 (repeatingTask "7 days"))) (entry "7 days") :=
    .init ⟨rfl, rfl⟩
  have h1 := h0.step (.step 0 .entered) (by intro hf; cases hf) rfl
  have h2 := h1.step (.step 0 (.result "{}" "")) (by intro hf; cases hf) rfl
  have h3 := h2.step (.step 0 .ok) (by intro _ _; rfl) rfl
  have h4 := h3.step (.step 0 .ok) (by intro _ _; decide) rfl
  have h5 := h4.step (.step 0 .ok) (by intro _ _; decide) rfl
  exact ⟨_, h5, rfl, result_stands h5⟩

/-- A completed task whose interval is too long for a `timedelta`: the read after the
    commit raises, and the run schedules a retry of what it has just completed. -/
theorem overlong_interval_reruns :
    ¬ ∀ (extractJson : String → Option String) (validate : String → Option TaskRunnerOutput) (task : DequeuedTask)
      (s : Run), (run extractJson validate task).Reach s → Stands s.log := by
  intro h
  have hr : ∃ s, (runOf "99999999999d").exec (entry "99999999999d")
      (completion ++ [.step 0 (.maxAttempts (.value 5)), .step 0 .ok]) = some s ∧
      s.log = [.result .completed, .retry] := ⟨_, rfl, rfl⟩
  obtain ⟨s, hs, hl⟩ := hr
  have hst := h _ _ _ s (Machine.Reach.exec (.init ⟨rfl, rfl⟩) hs)
  rw [hl] at hst
  exact absurd (List.rel_of_pairwise_cons hst (List.mem_singleton.mpr rfl) rfl) (by decide)

end Errand.Server.RunTask

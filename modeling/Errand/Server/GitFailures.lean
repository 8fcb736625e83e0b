import Errand.Lib.Machine
import Errand.Server.RunTask

/-
  Errand.Server.GitFailures — what a run leaves of its task when the skills repository cannot
  be had (the `GitSkillsError` branch of `_run_task`, errand/task_manager.py).

  The branch opens a session, reads the task and adds the `Credentials` tag if the error has
  a hint of one. From `MAX_GIT_RETRIES` failures on it moves the task to review and commits.
  Below, it calls `_schedule_retry`, which has a session of its own, and a cap of its own
  (`max_retry_attempts`), at which it puts the task in review as `Failed`; the first session
  is closed without a commit, and its tag is lost. Between failures, rows change in any way.

  Proved:
  - `gitSkillsError_runs`: the branch is what the steps of the coroutine come to when
    nothing comes between them.
  - `recorded_throughout_iff`: a run records every failure as its kind asks exactly if each
    finds the task with a counter below both caps, and already tagged if its error has a
    hint; or, at the cap of its own, not tagged `Failed`.
  - `all_recorded_iff`: for a task that fails again and again, which errors and settings those
    are.
  - `a_hint_is_lost`: the first failure of a task, for a key that is refused.
-/

namespace Errand.Server.GitFailures

open Errand.Lib Errand.Server.RunTask Errand.Server.Tasks

/-- The tags as the first session has them when the branch ends. -/
def flushed (error : String) (t : Task) : Task :=
  if isCredentialError error then { t with tags := addTag "Credentials" t.tags } else t

/-- The branch. What the first session has flushed is the database's only if it commits. -/
def gitSkillsError (now : Timestamp) (setting : Setting) (db : Db) (id : Nat) (error : String) : Option Db :=
  (db.get id).map fun t =>
    if t.retryCount ≥ maxGitRetries then
      (db.modify id (flushed error)).modify id fun t =>
        { t with
          status := .review
          position := nextPosition (db.modify id (flushed error)) .review
          output := some error
          updatedBy := some "system"
          updatedAt := now }
    else scheduleRetry now db id t.retryCount (getMaxRetryAttempts setting) (some error) none

/-- A failure is recorded as its kind asks, and by its own cap. -/
structure Recorded (t t' : Task) (error : String) : Prop where
  credentials : isCredentialError error = true → "Credentials" ∈ t'.tags
  rescheduled : t.retryCount < maxGitRetries → t'.status = .scheduled
  reviewed : maxGitRetries ≤ t.retryCount → t'.status = .review ∧ "Failed" ∉ t'.tags

/-- Below the cap, the other cap is not reached either, and what the error says is tagged
    already; at it, the task has not been given up before. -/
def Recordable (setting : Setting) (t : Task) (error : String) : Prop :=
  if t.retryCount < maxGitRetries then
    (isCredentialError error = true → "Credentials" ∈ t.tags) ∧
      (t.retryCount : Int) < getMaxRetryAttempts setting - 1
  else "Failed" ∉ t.tags

/-! ## One failure -/

section Failure

variable {now : Timestamp} {setting : Setting} {db db' : Db} {id : Nat} {t t' : Task} {error : String}

theorem flushed_kept (error : String) (t : Task) :
    (flushed error t).status = t.status ∧ (flushed error t).position = t.position := by
  unfold flushed
  split <;> exact ⟨rfl, rfl⟩

/-- The next position depends on statuses and positions only. -/
theorem nextPosition_modify {f : Task → Task} (hf : ∀ t, (f t).status = t.status ∧ (f t).position = t.position)
    (status : Status) : nextPosition (db.modify id f) status = nextPosition db status := by
  have hrows : ((db.modify id f).rows.filter (·.status = status)).map (·.position) =
      (db.rows.filter (·.status = status)).map (·.position) := by
    unfold Db.rows
    rw [List.filter_filterMap, List.filter_filterMap, List.map_filterMap, List.map_filterMap, Db.modify_nextId]
    refine List.filterMap_congr fun j _ => ?_
    by_cases hj : j = id
    · subst hj
      rw [Db.modify_self]
      cases db.get j with
      | none => rfl
      | some t => simp [hf t, Option.filter]
    · rw [Db.modify_other db f hj]
  unfold nextPosition
  rw [hrows]

theorem modify_modify (db : Db) (id : Nat) (f g : Task → Task) :
    (db.modify id f).modify id g = db.modify id (g ∘ f) := by
  simp only [Db.modify, Function.update_self, Function.update_idem, Option.map_map]

/-- What the branch commits. -/
theorem gitSkillsError_eq (h : db.get id = some t) :
    gitSkillsError now setting db id error = some
      (if t.retryCount ≥ maxGitRetries then gitReview now db id error
      else scheduleRetry now db id t.retryCount (getMaxRetryAttempts setting) (some error) none) := by
  rw [gitSkillsError, h, Option.map_some, nextPosition_modify (flushed_kept error), modify_modify]
  refine congrArg (fun review => some (if t.retryCount ≥ maxGitRetries then review else _)) ?_
  refine congrArg (db.modify id) (funext fun t => ?_)
  by_cases hhint : isCredentialError error = true
  · simp [flushed, hhint]
  · simp [flushed, hhint]

/-- Alone, the coroutine goes through the branch to its end. -/
theorem gitSkillsError_runs {extractJson : String → Option String} {validate : String → Option TaskRunnerOutput}
    {task : DequeuedTask} (h : db.get task.id = some t)
    (hdb : gitSkillsError now setting db task.id error = some db') :
    ∃ pc commit, runStep extractJson validate now db task .processing (.gitSkillsError error) =
        some ⟨db, .gitRead error, none⟩ ∧
      runStep extractJson validate now db task (.gitRead error) .ok = some ⟨db, pc, none⟩ ∧
      if t.retryCount ≥ maxGitRetries then
        runStep extractJson validate now db task pc .ok = some ⟨db', .gitReviewed, some commit⟩
      else
        ∃ pc', runStep extractJson validate now db task pc (.maxAttempts setting) = some ⟨db, pc', none⟩ ∧
          runStep extractJson validate now db task pc' .ok = some ⟨db', .retried .git, some commit⟩ := by
  rw [gitSkillsError_eq h] at hdb
  obtain rfl := Option.some.inj hdb
  by_cases hcap : t.retryCount ≥ maxGitRetries
  · refine ⟨.gitReview error, .gitReview, rfl, ?_, ?_⟩
    · simp only [runStep, proceed, h, Option.map_some, if_pos hcap]
    · rw [if_pos hcap, if_pos hcap]
      rfl
  · refine ⟨.retryRead .git (some error) none,
      if exhausted t.retryCount (getMaxRetryAttempts setting) then .escalate else .retry, rfl, ?_, ?_⟩
    · simp only [runStep, proceed, h, Option.map_some, if_neg hcap]
    · rw [if_neg hcap, if_neg hcap]
      refine ⟨.retryWrite .git t.retryCount (getMaxRetryAttempts setting) (some error) none, ?_, rfl⟩
      simp only [runStep, h, Option.map_some]

theorem exhausted_iff (retryCount : Nat) (maxAttempts : Int) :
    exhausted retryCount maxAttempts = true ↔ ¬ (retryCount : Int) < maxAttempts - 1 := by
  unfold exhausted
  rw [decide_eq_true_iff]
  exact Int.not_lt.symm

/-- Below the cap of its own, by the other cap. -/
theorem retried_iff (h : db.get id = some t)
    (ht' : (scheduleRetry now db id t.retryCount (getMaxRetryAttempts setting) (some error) none).get id = some t')
    (hcap : t.retryCount < maxGitRetries) :
    Recorded t t' error ↔ (isCredentialError error = true → "Credentials" ∈ t.tags) ∧
      (t.retryCount : Int) < getMaxRetryAttempts setting - 1 := by
  unfold scheduleRetry at ht'
  by_cases hx : exhausted t.retryCount (getMaxRetryAttempts setting) = true
  · rw [if_pos hx, escalate, Db.modify_self, h] at ht'
    obtain rfl := Option.some.inj ht'
    have hspent := (exhausted_iff ..).mp hx
    constructor
    · intro hr
      cases hr.rescheduled hcap
    · intro hr
      exact absurd hr.2 hspent
  · rw [if_neg hx, retry, Db.modify_self, h] at ht'
    obtain rfl := Option.some.inj ht'
    have hleft : (t.retryCount : Int) < getMaxRetryAttempts setting - 1 := by
      by_contra hle
      exact hx ((exhausted_iff ..).mpr hle)
    -- the only tag that is new is `Retry`
    have htags : "Credentials" ∈ addTag "Retry" t.tags ↔ "Credentials" ∈ t.tags := by simp
    constructor
    · intro hr
      exact ⟨fun hhint => htags.mp (hr.credentials hhint), hleft⟩
    · intro hr
      refine ⟨fun hhint => htags.mpr (hr.1 hhint), fun _ => rfl, ?_⟩
      intro hle
      exact absurd hcap (not_lt.mpr hle)

theorem reviewed_iff (h : db.get id = some t) (ht' : (gitReview now db id error).get id = some t')
    (hcap : maxGitRetries ≤ t.retryCount) : Recorded t t' error ↔ "Failed" ∉ t.tags := by
  rw [gitReview, Db.modify_self, h] at ht'
  obtain rfl := Option.some.inj ht'
  have htags : "Failed" ∈ (if isCredentialError error then addTag "Credentials" t.tags else t.tags) ↔
      "Failed" ∈ t.tags := by
    split
    · simp
    · rfl
  constructor
  · intro hr
    exact fun hfailed => (hr.reviewed hcap).2 (htags.mpr hfailed)
  · intro hfailed
    refine ⟨?_, fun hlt => absurd hcap (not_le.mpr hlt), fun _ => ⟨rfl, fun hmem => hfailed (htags.mp hmem)⟩⟩
    intro hhint
    simp [hhint]

theorem recorded_iff (h : db.get id = some t) (hdb : gitSkillsError now setting db id error = some db')
    (ht' : db'.get id = some t') : Recorded t t' error ↔ Recordable setting t error := by
  rw [gitSkillsError_eq h] at hdb
  obtain rfl := Option.some.inj hdb
  unfold Recordable
  by_cases hcap : t.retryCount < maxGitRetries
  · rw [if_neg (not_le.mpr hcap)] at ht'
    rw [if_pos hcap]
    exact retried_iff h ht' hcap
  · rw [if_pos (not_lt.mp hcap)] at ht'
    rw [if_neg hcap]
    exact reviewed_iff h ht' (not_lt.mp hcap)

/-- What the next failure finds after one that was recorded. -/
structure Counted (t t' : Task) : Prop where
  counter : t'.retryCount = if t.retryCount < maxGitRetries then t.retryCount + 1 else t.retryCount
  credentials : t.retryCount < maxGitRetries → ("Credentials" ∈ t'.tags ↔ "Credentials" ∈ t.tags)
  failed : "Failed" ∈ t'.tags ↔ "Failed" ∈ t.tags

theorem recorded_counted (h : db.get id = some t) (hdb : gitSkillsError now setting db id error = some db')
    (ht' : db'.get id = some t') (hr : Recordable setting t error) : Counted t t' := by
  rw [gitSkillsError_eq h] at hdb
  obtain rfl := Option.some.inj hdb
  unfold Recordable at hr
  by_cases hcap : t.retryCount < maxGitRetries
  · rw [if_pos hcap] at hr
    rw [if_neg (not_le.mpr hcap), scheduleRetry, if_neg fun hx => (exhausted_iff ..).mp hx hr.2, retry, Db.modify_self,
      h] at ht'
    obtain rfl := Option.some.inj ht'
    exact ⟨(if_pos hcap).symm, fun _ => by simp, by simp⟩
  · rw [if_pos (not_lt.mp hcap), gitReview, Db.modify_self, h] at ht'
    obtain rfl := Option.some.inj ht'
    refine ⟨(if_neg hcap).symm, fun hlt => absurd hlt hcap, ?_⟩
    by_cases hhint : isCredentialError error = true <;> simp [hhint]

/-- The task is there after the branch. -/
theorem gitSkillsError_get (h : db.get id = some t) (hdb : gitSkillsError now setting db id error = some db') :
    ∃ t', db'.get id = some t' := by
  rw [gitSkillsError_eq h] at hdb
  obtain rfl := Option.some.inj hdb
  unfold gitReview scheduleRetry escalate retry
  split
  · exact ⟨_, by rw [Db.modify_self, h]; rfl⟩
  · split <;> exact ⟨_, by rw [Db.modify_self, h]; rfl⟩

end Failure

/-! ## A run -/

inductive Ev where
  /-- A run of the task ends with the error; the cap is configured as it is then. -/
  | fails (now : Timestamp) (setting : Setting) (error : String)
  /-- Everything else that changes the tables. -/
  | elsewhere (db : Db)

def step (id : Nat) (db : Db) : Ev → Option Db
  | .fails now setting error => gitSkillsError now setting db id error
  | .elsewhere db' => some db'

def machine (id : Nat) : Machine Db Ev := ⟨fun _ => True, step id⟩

/-- The step records what it is to record. -/
def StepRecorded (id : Nat) (db : Db) : Ev → Prop
  | .fails now setting error => ∀ t db' t', db.get id = some t → gitSkillsError now setting db id error = some db' →
      db'.get id = some t' → Recorded t t' error
  | .elsewhere _ => True

def StepRecordable (id : Nat) (db : Db) : Ev → Prop
  | .fails _ setting error => ∀ t, db.get id = some t → Recordable setting t error
  | .elsewhere _ => True

theorem stepRecorded_iff {id : Nat} {db : Db} {e : Ev} : StepRecorded id db e ↔ StepRecordable id db e := by
  cases e with
  | elsewhere db' => exact Iff.rfl
  | fails now setting error =>
    constructor
    · intro h t ht
      obtain ⟨db', hdb⟩ : ∃ db', gitSkillsError now setting db id error = some db' := ⟨_, gitSkillsError_eq ht⟩
      obtain ⟨t', ht'⟩ := gitSkillsError_get ht hdb
      exact (recorded_iff ht hdb ht').mp (h t db' t' ht hdb ht')
    · intro h t db' t' ht hdb ht'
      exact (recorded_iff ht hdb ht').mpr (h t ht)

/-- Every failure of a run is recorded exactly if each finds its task recordable. -/
theorem recorded_throughout_iff (id : Nat) (db : Db) (es : List Ev) :
    (∀ x ∈ (machine id).trace db es, StepRecorded id x.1 x.2) ↔
      ∀ x ∈ (machine id).trace db es, StepRecordable id x.1 x.2 :=
  forall₂_congr fun _ _ => stepRecorded_iff

/-! ## A task that only fails so -/

/-- The failure number `i` of a task, from 0. -/
def Clear (i : Nat) (f : Timestamp × Setting × String) : Prop :=
  i < maxGitRetries → isCredentialError f.2.2 = false ∧ (i : Int) < getMaxRetryAttempts f.2.1 - 1

/-- What an untagged task is recorded with depends on its count. -/
theorem recordable_iff_clear {setting : Setting} {t : Task} {error : String} {i : Nat}
    (hcount : t.retryCount = min i maxGitRetries) (hfailed : "Failed" ∉ t.tags)
    (hcredentials : i < maxGitRetries → "Credentials" ∉ t.tags) (now : Timestamp) :
    Recordable setting t error ↔ Clear i (now, setting, error) := by
  unfold Recordable Clear
  by_cases hi : i < maxGitRetries
  · have hc : t.retryCount = i := by omega
    simp [hc, hi, hcredentials hi]
  · have hc : ¬ t.retryCount < maxGitRetries := by omega
    simp [hc, hi, hfailed]

/-- A task without the two tags that has failed `i` times, all of them recorded. -/
theorem all_recorded_iff {id : Nat} : ∀ (fs : List (Timestamp × Setting × String)) {i : Nat} {db : Db} {t : Task},
    db.get id = some t → t.retryCount = min i maxGitRetries → "Failed" ∉ t.tags →
    (i < maxGitRetries → "Credentials" ∉ t.tags) →
    ((∀ x ∈ (machine id).trace db (fs.map fun f => .fails f.1 f.2.1 f.2.2), StepRecorded id x.1 x.2) ↔
      ∀ j f, fs[j]? = some f → Clear (i + j) f) := by
  intro fs
  induction fs with
  | nil => simp [Machine.trace]
  | cons f fs ih =>
    intro i db t ht hcount hfailed hcredentials
    obtain ⟨now, setting, error⟩ := f
    obtain ⟨db', hdb⟩ : ∃ db', gitSkillsError now setting db id error = some db' := ⟨_, gitSkillsError_eq ht⟩
    obtain ⟨t', ht'⟩ := gitSkillsError_get ht hdb
    have hfirst : StepRecorded id db (.fails now setting error) ↔ Clear i (now, setting, error) := by
      rw [stepRecorded_iff, ← recordable_iff_clear hcount hfailed hcredentials now]
      exact ⟨fun h => h t ht, fun h u hu => Option.some.inj (ht.symm.trans hu) ▸ h⟩
    have hsplit : (∀ j g, ((now, setting, error) :: fs)[j]? = some g → Clear (i + j) g) ↔
        Clear i (now, setting, error) ∧ ∀ j g, fs[j]? = some g → Clear (i + 1 + j) g := by
      constructor
      · intro h
        refine ⟨h 0 _ rfl, fun j g hg => ?_⟩
        rw [Nat.add_right_comm]
        exact h (j + 1) g hg
      · rintro ⟨h0, h⟩ j g hg
        cases j with
        | zero => exact Option.some.inj hg ▸ h0
        | succ j =>
          rw [← Nat.add_assoc, Nat.add_right_comm]
          exact h j g hg
    have hstep : (machine id).step db (.fails now setting error) = some db' := hdb
    rw [List.map_cons, Machine.trace_cons _ hstep, List.forall_mem_cons, hfirst, hsplit]
    refine and_congr_right fun hclear => ?_
    have hr := (recordable_iff_clear hcount hfailed hcredentials now).mpr hclear
    obtain ⟨hcounter, htag, hfail⟩ := recorded_counted ht hdb ht' hr
    refine ih ht' ?_ (fun h => hfailed (hfail.mp h)) ?_
    · rw [hcounter]
      split <;> omega
    · intro hi
      rw [htag (by omega)]
      exact hcredentials (by omega)

/-! ## The first failure of a task -/

/-- A task that is being run for the first time. -/
def firstRun : Db where
  nextId := 1
  get
    | 0 => some
      { title := "task"
        description := none
        status := .running
        createdAt := 0
        updatedAt := 0
        category := none
        executeAt := none
        repeatInterval := none
        repeatUntil := none
        position := 1
        output := none
        runnerLogs := none
        questions := none
        retryCount := 0
        heartbeatAt := some 0
        profileId := none
        createdBy := none
        updatedBy := none
        isEval := false
        tags := [] }
    | _ => none
  fresh := by
    intro id hid
    match id, hid with
    | _ + 1, _ => rfl

theorem a_timeout_is_recorded :
    isCredentialError "timeout" = false ∧
      ∀ x ∈ (machine 0).trace firstRun [.fails 0 .unresolved "timeout"], StepRecorded 0 x.1 x.2 := by
  have hclear : ∀ j f, [((0 : Timestamp), Setting.unresolved, "timeout")][j]? = some f → Clear (0 + j) f := by
    intro j f hf
    cases j with
    | zero =>
      cases hf
      exact fun _ => ⟨by decide, by decide⟩
    | succ j => simp at hf
  exact ⟨by decide, (all_recorded_iff [(0, .unresolved, "timeout")] rfl rfl (by decide) fun _ => by decide).mpr hclear⟩

/-- The key is refused: the task is scheduled again, and its tag is not kept. -/
theorem a_hint_is_lost :
    ¬ ∀ x ∈ (machine 0).trace firstRun [.fails 0 .unresolved "git@host: Permission denied (publickey)."],
      StepRecorded 0 x.1 x.2 := by
  intro h
  have hfirst := stepRecorded_iff.mp (h _ (List.mem_cons_self ..)) _ rfl
  exact absurd (hfirst.1 (by decide)) (by decide)

end Errand.Server.GitFailures

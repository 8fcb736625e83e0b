import Errand.Server.Lifecycle
import Errand.Server.TaskEdits

/-
  Errand.Server.DueTimes — the board with every way a task gets on the schedule: the
  requests that create one (Errand.Server.TaskCreation), the edit
  (Errand.Server.TaskEdits), and what moves tasks by itself (Errand.Server.Lifecycle).

  A request that fails leaves the board as it is.

  Proved:
  - `due_iff`: promotion picks a scheduled task up at some time, and from then on, exactly
    if it has an `execute_at`.
  - `step_timed`: a step from a board whose scheduled tasks all have one keeps them so
    exactly if it is `InTime`.
  - `due_times_iff`: so they are all along exactly the runs whose steps all are.
  - `a_tool_drops_the_time`, `an_edit_drops_the_time`: runs with a step that is not.
-/

namespace Errand.Server.DueTimes

open Errand.Lib Errand.Runner Errand.Server.Tasks Errand.Server.RunTask Errand.Server.Lifecycle
open Errand.Server.TaskCreation Errand.Server.TaskEdits

/-! ## Tasks with a time -/

def AllTimed (db : Db) : Prop := ∀ id t, db.get id = some t → Timed t

/-- Promotion takes the task from some time on. -/
def ComesDue (t : Task) : Prop := ∃ x, t.executeAt = some x ∧ ∀ now, x ≤ now → due now t = true

theorem due_iff {t : Task} (h : t.status = .scheduled) :
    (ComesDue t ↔ t.executeAt.isSome = true) ∧ (t.executeAt.isSome = false → ∀ now, due now t = false) := by
  constructor
  · constructor
    · intro hfound
      rcases hfound with ⟨x, hx, -⟩
      rw [hx]
      rfl
    · intro hsome
      obtain ⟨x, hx⟩ := Option.isSome_iff_exists.mp hsome
      refine ⟨x, hx, ?_⟩
      intro now hnow
      simp [due, h, hx, hnow]
  · intro hnone now
    rw [Option.isSome_eq_false_iff, Option.isNone_iff_eq_none] at hnone
    simp [due, hnone]

theorem allTimed_insert {db : Db} (h : AllTimed db) (t : Task) : AllTimed (db.insert t) ↔ Timed t := by
  constructor
  · intro hall
    exact hall db.nextId t (by simp)
  · intro ht id u hu
    by_cases hid : id = db.nextId
    · subst hid
      rw [Db.insert_self] at hu
      cases hu
      exact ht
    · rw [Db.insert_other db t hid] at hu
      exact h id u hu

theorem allTimed_modify {db : Db} (h : AllTimed db) (id : Nat) (f : Task → Task) :
    AllTimed (db.modify id f) ↔ ∀ t, db.get id = some t → Timed (f t) := by
  constructor
  · intro hall t ht
    exact hall id (f t) (by rw [Db.modify_self, ht]; rfl)
  · intro hf j u hu
    by_cases hj : j = id
    · subst hj
      rw [Db.modify_self] at hu
      obtain ⟨t, ht, rfl⟩ := Option.map_eq_some_iff.mp hu
      exact hf t ht
    · rw [Db.modify_other db f hj] at hu
      exact h j u hu

/-- A task that leaves the schedule, or stays where it is with its time. -/
theorem allTimed_off {db : Db} (h : AllTimed db) {id : Nat} {f : Task → Task}
    (hf : ∀ t, (f t).status ≠ .scheduled) : AllTimed (db.modify id f) :=
  (allTimed_modify h id f).mpr fun t _ hs => absurd hs (hf t)

theorem transaction_timed {now : Timestamp} {db db' : Db} {task : DequeuedTask} {pc : Pc} {c : Commit}
    (h : AllTimed db) (ht : transaction now db task pc = some (db', c)) : AllTimed db' := by
  cases pc with
  | recording parsed stderr =>
    cases ht
    refine allTimed_off h fun t => ?_
    rcases targetStatus_cases task.createdBy parsed with heq | heq
    · show targetStatus task.createdBy parsed ≠ .scheduled
      rw [heq]
      decide
    · show targetStatus task.createdBy parsed ≠ .scheduled
      rw [heq]
      decide
  | rescheduling snapshot interval =>
    simp only [transaction] at ht
    split at ht
    · cases ht
    · cases ht
      exact (allTimed_insert h _).mpr fun _ => rfl
  | retryWrite hd retryCount maxAttempts output runnerLogs =>
    simp only [transaction, scheduleRetry] at ht
    split at ht
    · cases ht
      exact allTimed_off h fun t => by rintro ⟨⟩
    · cases ht
      exact (allTimed_modify h _ _).mpr fun t _ _ => rfl
  | gitReview error =>
    cases ht
    exact allTimed_off h fun t => by rintro ⟨⟩
  | _ => cases ht

/-! ## The machine -/

section Machine

variable (extractJson : String → Option String) (validate : String → Option TaskRunnerOutput)
  (loads : String → Loads) (fromisoformat : String → Option Timestamp) (uuid : String → Option Nat)

inductive Event where
  | base (e : Ev)
  | post (profiles : Profiles) (input : String) (asked : Asked) (email : Option String)
  | confirm (profiles : Profiles) (draft : Draft) (owner : String) (extraTags : List String)
  | newTask (profiles : Profiles) (description : String) (profile title : Option String) (asked : Asked)
      (clientId : String)
  | scheduleTask (profiles : Profiles) (description executeAt : String)
      (repeatInterval repeatUntil profile : Option String) (asked : Asked) (clientId : String)
  | patch (profiles : Profiles) (id : Nat) (body : TaskUpdate) (email : Option String)

def withDb (s : St) (db : Option Db) : St := { s with db := db.getD s.db }

def machine : Machine St Event where
  init s := ∃ now, s = start now ⟨0, fun _ => none, Db.fresh_none⟩
  step s e :=
    match e with
    | .base (.create _) => none
    | .base e => Lifecycle.step extractJson validate s e
    | .post profiles input asked email =>
      some (withDb s (createTask loads fromisoformat s.now s.db profiles input asked email))
    | .confirm profiles draft owner extraTags =>
      some (withDb s (TaskCreation.confirm fromisoformat s.now s.db profiles draft owner extraTags))
    | .newTask profiles description profile title asked clientId =>
      some (withDb s (TaskCreation.newTask loads s.now s.db profiles description profile title asked clientId))
    | .scheduleTask profiles description executeAt repeatInterval repeatUntil profile asked clientId =>
      some (withDb s (TaskCreation.scheduleTask loads fromisoformat s.now s.db profiles description executeAt
        repeatInterval repeatUntil profile asked clientId))
    | .patch profiles id body email =>
      some (withDb s (updateTask fromisoformat uuid s.now s.db profiles id body email).toOption)

/-- The step leaves no task on the schedule without a time: where the classifier, the draft
    or the edit puts one there, it has one that can be read; `new_task` puts none there;
    and a zombie that is put back on the schedule at the very time it was loaded with has
    not lost it since. -/
def InTime (s : St) : Event → Prop
  | .base (.zombieCommit z) => z.loaded.retryCount < maxRetries →
      z.loaded.executeAt = some (z.now + minutes (zombieBackoff z.loaded.retryCount)) →
      ∀ t, s.db.get z.id = some t → t.executeAt.isSome = true
  | .post profiles input asked email =>
      (createTask loads fromisoformat s.now s.db profiles input asked email).isSome = true →
      5 < (words (PyStr.stripString input)).length →
      AnswerTimed fromisoformat (generateTitle loads (PyStr.stripString input) asked)
  | .confirm profiles draft owner extraTags =>
      (TaskCreation.confirm fromisoformat s.now s.db profiles draft owner extraTags).isSome = true →
      SpecTimed fromisoformat draft.spec extraTags
  | .newTask profiles description profile title asked clientId =>
      (TaskCreation.newTask loads s.now s.db profiles description profile title asked clientId).isSome = true →
      ToolTimed loads description title asked
  | .patch profiles id body email =>
      (updateTask fromisoformat uuid s.now s.db profiles id body email).toOption.isSome = true →
      ∀ t, s.db.get id = some t → body.status.getD t.status = .scheduled →
        (dateField fromisoformat body.executeAt t.executeAt).isSome = true
  | _ => True

end Machine

/-! ## Steps -/

variable {extractJson : String → Option String} {validate : String → Option TaskRunnerOutput}
  {loads : String → Loads} {fromisoformat : String → Option Timestamp} {uuid : String → Option Nat}

theorem recoverZombie_timed {db : Db} {z : Zombie} (h : AllTimed db) (hl : z.loaded.status = .running) :
    AllTimed (recoverZombie db z) ↔ (z.loaded.retryCount < maxRetries →
      z.loaded.executeAt = some (z.now + minutes (zombieBackoff z.loaded.retryCount)) →
      ∀ t, db.get z.id = some t → t.executeAt.isSome = true) := by
  unfold recoverZombie
  rw [allTimed_modify h]
  by_cases hr : z.loaded.retryCount ≥ maxRetries
  · simp [Timed, hr, assign, hl, Nat.not_lt.mpr hr]
  · have hlt : z.loaded.retryCount < maxRetries := Nat.lt_of_not_le hr
    by_cases he : some (z.now + minutes (zombieBackoff z.loaded.retryCount)) = z.loaded.executeAt
    · simp [Timed, hr, assign, hl, he, hlt]
    · simp [Timed, hr, assign, hl, he, Ne.symm he]

theorem base_timed {s s' : St} {e : Ev} (hw : Rows s) (ht : AllTimed s.db) (h : Change s e s')
    (hcreate : ∀ t, e ≠ .create t) :
    AllTimed s'.db ↔ InTime loads fromisoformat uuid s (.base e) := by
  cases h with
  | create => exact absurd rfl (hcreate _)
  | zombieCommit hz => exact recoverZombie_timed ht (hw.zombies _ hz).1
  | run hx hs =>
    rename_i r a x o
    refine iff_of_true ?_ trivial
    obtain ⟨db', pc', c⟩ := o
    cases hs.effect with
    | nothing => exact ht
    | committed hc => exact transaction_timed ht hc
  | heartbeat hx => exact iff_of_true ((allTimed_modify ht _ _).mpr fun t hg hs => ht _ t hg hs) trivial
  | dispatch hg hp => exact iff_of_true (allTimed_off ht fun t => nofun) trivial
  | promote hg hp => exact iff_of_true (allTimed_off ht fun t => nofun) trivial
  | archiveCommit hi => exact iff_of_true (allTimed_off ht fun t => nofun) trivial
  | delete hi => exact iff_of_true (allTimed_off ht fun t => nofun) trivial
  | _ => exact iff_of_true ht trivial

/-- A request that inserts a row, or fails. -/
theorem inserted_timed {s : St} {db : Option Db} {C : Prop} (ht : AllTimed s.db)
    (hrow : ∀ db', db = some db' → ∃ t, db' = s.db.insert t ∧ (Timed t ↔ C)) :
    AllTimed (withDb s db).db ↔ (db.isSome = true → C) := by
  cases db with
  | none =>
    refine iff_of_true ht ?_
    nofun
  | some db' =>
    obtain ⟨t, rfl, htimed⟩ := hrow db' rfl
    show AllTimed (s.db.insert t) ↔ _
    rw [allTimed_insert ht, htimed]
    simp

theorem patch_timed {s : St} {profiles : Profiles} {id : Nat} {body : TaskUpdate} {email : Option String}
    (ht : AllTimed s.db) :
    AllTimed (withDb s (updateTask fromisoformat uuid s.now s.db profiles id body email).toOption).db ↔
      InTime loads fromisoformat uuid s (.patch profiles id body email) := by
  cases hu : updateTask fromisoformat uuid s.now s.db profiles id body email with
  | error e =>
    refine iff_of_true ht ?_
    simp only [InTime, hu]
    nofun
  | ok db' =>
    obtain ⟨t, profileId, hget, -, hrow, hothers⟩ := updateTask_rows hu
    simp only [InTime, hu]
    show AllTimed db' ↔ _
    constructor
    · intro hall _ t' ht' hs
      obtain rfl := Option.some.inj (hget.symm.trans ht')
      exact hall id _ hrow hs
    · intro h j row hj
      by_cases hij : j = id
      · subst hij
        obtain rfl := Option.some.inj (hrow.symm.trans hj)
        exact h rfl t hget
      · obtain ⟨f, hf, hkept⟩ := hothers j hij
        rw [hf] at hj
        obtain ⟨row', hrow', rfl⟩ := Option.map_eq_some_iff.mp hj
        intro hs
        rw [(hkept row').2]
        exact ht j row' hrow' ((hkept row').1.symm.trans hs)

theorem rows_withDb {s : St} {db : Option Db} (hw : Rows s)
    (h : ∀ db', db = some db' → ∀ id, s.db.has id → db'.has id) : Rows (withDb s db) := by
  have hhas : ∀ id, s.db.has id → (withDb s db).db.has id := by
    intro id hid
    cases db with
    | none => exact hid
    | some db' => exact h db' rfl id hid
  refine ⟨fun r x hx => hhas _ (hw.runs r x hx), ?_, fun id hi => hhas _ (hw.archiving id hi),
    fun id hi => hhas _ (hw.succs id hi)⟩
  intro z hz
  exact ⟨(hw.zombies z hz).1, hhas _ (hw.zombies z hz).2⟩

theorem rows_inserted {s : St} {db : Option Db} {C : Task → Prop} (hw : Rows s)
    (hrow : ∀ db', db = some db' → ∃ t, db' = s.db.insert t ∧ C t) : Rows (withDb s db) := by
  refine rows_withDb hw ?_
  intro db' hdb id hid
  obtain ⟨t, rfl, -⟩ := hrow db' hdb
  exact has_insert _ _ hid

theorem rows_patch {s : St} {profiles : Profiles} {id : Nat} {body : TaskUpdate} {email : Option String}
    (hw : Rows s) : Rows (withDb s (updateTask fromisoformat uuid s.now s.db profiles id body email).toOption) := by
  refine rows_withDb hw ?_
  intro db' hdb j hj
  cases hu : updateTask fromisoformat uuid s.now s.db profiles id body email with
  | error e =>
    rw [hu] at hdb
    cases hdb
  | ok db'' =>
    rw [hu] at hdb
    obtain rfl := Option.some.inj hdb
    obtain ⟨t, profileId, -, -, hrow, hothers⟩ := updateTask_rows hu
    unfold Db.has at hj ⊢
    by_cases hij : j = id
    · rw [hij, hrow]
      rfl
    · obtain ⟨f, hf, -⟩ := hothers j hij
      rw [hf]
      simpa using hj

theorem step_timed {s s' : St} {e : Event} (hw : Rows s)
    (h : (machine extractJson validate loads fromisoformat uuid).step s e = some s') :
    Rows s' ∧ (AllTimed s.db → (AllTimed s'.db ↔ InTime loads fromisoformat uuid s e)) := by
  cases e with
  | base e =>
    have hcreate : ∀ t, e ≠ .create t := by
      intro t heq
      subst heq
      cases h
    have hstep : Lifecycle.step extractJson validate s e = some s' := by
      cases e with
      | create t => exact absurd rfl (hcreate t)
      | _ => exact h
    have hchange := step_change hstep
    exact ⟨hchange.rows hw, fun ht => base_timed hw ht hchange hcreate⟩
  | post profiles input asked email =>
    obtain rfl := Option.some.inj h
    have hrow := fun db' (hdb : createTask loads fromisoformat s.now s.db profiles input asked email = some db') =>
      createTask_row hdb
    exact ⟨rows_inserted hw hrow, fun ht => inserted_timed ht hrow⟩
  | confirm profiles draft owner extraTags =>
    obtain rfl := Option.some.inj h
    have hrow := fun db' (hdb : TaskCreation.confirm fromisoformat s.now s.db profiles draft owner extraTags = some db') =>
      confirm_row hdb
    exact ⟨rows_inserted hw hrow, fun ht => inserted_timed ht hrow⟩
  | newTask profiles description profile title asked clientId =>
    obtain rfl := Option.some.inj h
    have hrow := fun db'
      (hdb : TaskCreation.newTask loads s.now s.db profiles description profile title asked clientId = some db') =>
      newTask_row hdb
    exact ⟨rows_inserted hw hrow, fun ht => inserted_timed ht hrow⟩
  | scheduleTask profiles description executeAt repeatInterval repeatUntil profile asked clientId =>
    obtain rfl := Option.some.inj h
    have hrow : ∀ db', TaskCreation.scheduleTask loads fromisoformat s.now s.db profiles description executeAt
        repeatInterval repeatUntil profile asked clientId = some db' →
        ∃ t, db' = s.db.insert t ∧ (Timed t ↔ True) := by
      intro db' hdb
      obtain ⟨t, ht, htimed⟩ := scheduleTask_row hdb
      exact ⟨t, ht, iff_of_true htimed trivial⟩
    exact ⟨rows_inserted hw hrow, fun ht => (inserted_timed ht hrow).trans (iff_of_true (fun _ => trivial) trivial)⟩
  | patch profiles id body email =>
    obtain rfl := Option.some.inj h
    exact ⟨rows_patch hw, patch_timed⟩

/-! ## Runs -/

def emptyBoard (now : Timestamp) : St := start now ⟨0, fun _ => none, Db.fresh_none⟩

/-- Every scheduled task comes due, in every state of a run, exactly if all its steps are
    in time. -/
theorem due_times_iff (now : Timestamp) (es : List Event) :
    (∀ n s, (machine extractJson validate loads fromisoformat uuid).exec (emptyBoard now) (es.take n) = some s →
      ∀ id t, s.db.get id = some t → t.status = .scheduled → ComesDue t) ↔
    ∀ p ∈ (machine extractJson validate loads fromisoformat uuid).trace (emptyBoard now) es,
      InTime loads fromisoformat uuid p.1 p.2 := by
  have hall : ∀ s : St, (∀ id t, s.db.get id = some t → t.status = .scheduled → ComesDue t) ↔ AllTimed s.db := by
    intro s
    unfold AllTimed Timed
    refine forall_congr' fun id => forall_congr' fun t => forall_congr' fun _ => forall_congr' fun hs => ?_
    exact (due_iff hs).1
  simp only [hall]
  have hs : ∀ s e s', Rows s → True → (machine extractJson validate loads fromisoformat uuid).step s e = some s' →
      Rows s' ∧ (AllTimed s.db → (AllTimed s'.db ↔ InTime loads fromisoformat uuid s e)) :=
    fun _ _ _ hw _ hst => step_timed hw hst
  have hrun := Machine.throughout_iff (P := fun s : St => AllTimed s.db) (A := fun _ => True) hs
    (rows_start now ⟨0, fun _ => none, Db.fresh_none⟩) (fun e (_ : e ∈ es) => trivial)
  rw [emptyBoard, hrun]
  refine and_iff_right fun id t ht => ?_
  cases ht

/-- A classifier that finds a date in the description. -/
def dated : String → Loads := fun _ => .value (.obj
  [("title", .str "Send report"), ("category", .str "scheduled"), ("execute_at", .str "2026-03-01T09:00:00Z"),
   ("description", .str "send the report")])

def readsDates : String → Option Timestamp := fun s => if s = "2026-03-01T09:00:00Z" then some 1 else none

/-- `new_task` puts a task on the schedule and drops the date the classifier found. -/
theorem a_tool_drops_the_time :
    ¬ ∀ (now : Timestamp) (es : List Event) (s : St),
      (machine some completes dated readsDates (fun _ => none)).exec (emptyBoard now) es = some s →
      ∀ id t, s.db.get id = some t → t.status = .scheduled → ComesDue t := by
  intro h
  have hrun := h 0 [.newTask [] "send the report tomorrow at nine" none none (.content (some "{}")) "mcp"] _ rfl 0 _ rfl
    rfl
  obtain ⟨x, hx, -⟩ := hrun
  cases hx

/-- An edit clears the date of a scheduled task with a text that is none. -/
theorem an_edit_drops_the_time :
    ¬ ∀ (now : Timestamp) (es : List Event) (s : St),
      (machine some completes dated readsDates (fun _ => none)).exec (emptyBoard now) es = some s →
      ∀ id t, s.db.get id = some t → t.status = .scheduled → ComesDue t := by
  intro h
  have hrun := h 0 [.scheduleTask [] "report" "2026-03-01T09:00:00Z" none none none .unconfigured "mcp",
    .patch [] 0 { noUpdate with executeAt := some "tomorrow" } none] _ rfl 0 _ rfl rfl
  obtain ⟨x, hx, -⟩ := hrun
  cases hx

end Errand.Server.DueTimes

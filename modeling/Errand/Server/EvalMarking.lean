import Errand.Lib.Machine
import Errand.Lib.Slots
import Errand.Server.ExternalTasks
import Errand.Server.Reviews
import Errand.Server.TaskCreation
import Mathlib.Data.List.Sort

/-
  Errand.Server.EvalMarking — the flag of evaluation tasks (`eval_marking.py`), over every
  way a task is created and the list that leaves flagged tasks out (`list_tasks` of
  `main.py`).

  A creation is one transaction on the tasks, under the profiles there are then; a row whose
  profile has gone is not taken. The poller of emails, the two webhooks and the review task
  of a completed issue make their rows themselves; the others go by `resolve_is_eval`. Rows
  change in any way but for their flag, which no statement sets, and so do the profiles. An
  occurrence is made of the snapshot a coroutine dequeued. `origins` says of each task, by
  its id, under which profile's name it was created.

  Proved:
  - `marked_throughout_iff`: flags say whether a task was created under an evaluation
    profile, occurrences have their predecessors', and no list shows a task created under
    one, exactly in the runs in which no email, webhook or review is created under one, and
    no unflagged task has an occurrence under one.
  - `an_email_is_not_marked`: a mailbox with an evaluation profile.
-/

namespace Errand.Server.EvalMarking

open Errand.Lib Errand.Runner Errand.Server.Tasks Errand.Server.TaskCreation

/-- `is_eval_profile_name`. -/
def isEvalProfileName (name : Option String) : Bool := name.any (startsWith "eval--")

def profileName (profiles : Profiles) (profileId : Option Nat) : Option String :=
  profileId.bind fun id => (profiles.find? (·.2 = id)).map (·.1)

theorem resolveIsEval_eq (profiles : Profiles) (profileId : Option Nat) :
    resolveIsEval profiles profileId = isEvalProfileName (profileName profiles profileId) := by
  cases profileId with
  | none => rfl
  | some id =>
    simp only [resolveIsEval, profileName, isEvalProfileName, Option.bind_some]
    cases profiles.find? (·.2 = id) <;> rfl

/-! ## The list -/

def numbered (db : Db) : List (Nat × Task) := (List.range db.nextId).filterMap fun id => (db.get id).map (id, ·)

/-- `list_tasks`; no row has the status `new`. -/
def listTasks (includeEvals : Bool) (db : Db) : List (Nat × Task) :=
  let rows := (numbered db).filter fun row => includeEvals || !row.2.isEval
  let active := rows.filter fun row => !([.deleted, .archived, .completed] : List Status).contains row.2.status
  let completed := rows.filter fun row => row.2.status = .completed
  active.mergeSort (fun a b =>
      a.2.position < b.2.position || (a.2.position = b.2.position && a.2.createdAt ≤ b.2.createdAt)) ++
    completed.mergeSort fun a b => b.2.updatedAt ≤ a.2.updatedAt

/-! ## Creations -/

section Open

variable (loads : String → Loads) (fromisoformat : String → Option Timestamp) (python : Python)
variable (uuid : String → Option Nat)

/-- A row that its maker did not flag; the columns not named have their defaults. -/
def unflagged (now : Timestamp) (title description : String) (profileId : Option Nat) (createdBy : String) : Task where
  title := title
  description := some description
  status := .pending
  createdAt := now
  updatedAt := now
  category := some "immediate"
  executeAt := none
  repeatInterval := none
  repeatUntil := none
  position := 0
  output := none
  runnerLogs := none
  questions := none
  retryCount := 0
  heartbeatAt := none
  profileId := profileId
  createdBy := some createdBy
  updatedBy := none
  isEval := false
  tags := []

/-- The profile a mailbox is configured with. -/
def emailProfile (profileId : Option String) : Option Nat := (profileId.filter (· ≠ "")).bind uuid

/-- `create_task_from_email`. -/
def createTaskFromEmail (now : Timestamp) (db : Db) (subject description : String) (profileId : Option String)
    (asked : Asked) : Task :=
  let r := generateTitle loads description asked
  let title := if r.success ∧ r.title ≠ "" then r.title else if subject.isEmpty then "(no subject)" else subject
  { unflagged now title description (emailProfile uuid profileId) "email_poller" with
    executeAt := some now
    position := nextPosition db .pending }

/-- The task of `handle_jira_webhook` and of `handle_github_webhook`, whose tag is its source. -/
def webhookTask (now : Timestamp) (db : Db) (d : ExternalTasks.Delivery) : Task :=
  let task := d.task db.nextId
  { unflagged now task.title task.description task.profileId task.createdBy with tags := [d.source] }

/-- The review task of `_dispatch_github`. -/
def reviewTask (now : Timestamp) (review : Reviews.ReviewTask) : Task :=
  unflagged now review.title review.description (some review.profileId) review.createdBy

inductive Creation where
  | web (input : String) (asked : Asked) (email : Option String)
  | draft (draft : Draft) (owner : String) (extraTags : List String)
  | newTask (description : String) (profile title : Option String) (asked : Asked) (clientId : String)
  | scheduleTask (description executeAt : String) (repeatInterval repeatUntil profile : Option String) (asked : Asked)
      (clientId : String)
  | email (subject description : String) (profileId : Option String) (asked : Asked)
  | webhook (delivery : ExternalTasks.Delivery)
  | review (ref : Reviews.ExternalTaskRef) (actions structured : Reviews.Fields)

/-- The insert of a row, which fails where its profile has gone. -/
def insertTask (db : Db) (profiles : Profiles) (t : Task) : Option Db :=
  if t.profileId.all fun id => profiles.any (·.2 = id) then some (db.insert t) else none

def create (now : Timestamp) (db : Db) (profiles : Profiles) : Creation → Option Db
  | .web input asked email => createTask loads fromisoformat now db profiles input asked email
  | .draft draft owner extraTags => confirm fromisoformat now db profiles draft owner extraTags
  | .newTask description profile title asked clientId =>
    TaskCreation.newTask loads now db profiles description profile title asked clientId
  | .scheduleTask description executeAt repeatInterval repeatUntil profile asked clientId =>
    TaskCreation.scheduleTask loads fromisoformat now db profiles description executeAt repeatInterval repeatUntil
      profile asked clientId
  | .email subject description profileId asked =>
    insertTask db profiles (createTaskFromEmail loads uuid now db subject description profileId asked)
  | .webhook delivery => insertTask db profiles (webhookTask now db delivery)
  | .review ref actions structured =>
    (Reviews.reviewOf python uuid ref actions structured).bind fun review =>
      insertTask db profiles (reviewTask now review)

/-- Whether a creation asks `resolve_is_eval`. -/
def Creation.marks : Creation → Bool
  | .email .. => false
  | .webhook _ => false
  | .review .. => false
  | _ => true

/-- The profile a creation that does not ask is configured with. -/
def Creation.profileId : Creation → Option Nat
  | .email _ _ profileId _ => emailProfile uuid profileId
  | .webhook delivery => delivery.profileId
  | .review _ actions _ => Reviews.profileOf uuid (Reviews.getOr "review_profile_id" .null actions)
  | _ => none

/-! ## The machine -/

/-- The name of the profile a task is created under. -/
inductive Origin where
  | made (profile : Option String)
  | occurrence (predecessor : Nat) (profile : Option String)

def Origin.profile : Origin → Option String
  | .made profile => profile
  | .occurrence _ profile => profile

structure St where
  db : Db
  profiles : Profiles
  origins : List Origin
  /-- The snapshots that were dequeued. -/
  dequeued : List DequeuedTask

def start : St := ⟨⟨0, fun _ => none, Db.fresh_none⟩, [], [], []⟩

inductive Event where
  | setProfiles (profiles : Profiles)
  | create (now : Timestamp) (creation : Creation)
  /-- A row becomes `t`. -/
  | write (id : Nat) (t : Task)
  | dequeue (id : Nat)
  /-- The next occurrence of the `n`-th snapshot. -/
  | reschedule (n : Nat) (now executeAt : Timestamp)

def step (s : St) : Event → Option St
  | .setProfiles profiles => some { s with profiles := profiles }
  | .create now creation =>
    (create loads fromisoformat python uuid now s.db s.profiles creation).map fun db =>
      { s with
        db := db
        origins := s.origins ++ [.made (profileName s.profiles ((db.get s.db.nextId).bind (·.profileId)))] }
  | .write id t =>
    match s.db.get id with
    | some old => if t.isEval = old.isEval then some { s with db := s.db.modify id fun _ => t } else none
    | none => none
  | .dequeue id => (s.db.get id).map fun t => { s with dequeued := s.dequeued ++ [.fromOrm id t] }
  | .reschedule n now executeAt =>
    s.dequeued[n]?.bind fun task =>
      (insertTask s.db s.profiles (nextOccurrence now executeAt s.db task)).map fun db =>
        { s with
          db := db
          origins := s.origins ++ [.occurrence task.id (profileName s.profiles task.profileId)] }

def machine : Machine St Event := ⟨(· = start), step loads fromisoformat python uuid⟩

structure Marked (s : St) : Prop where
  made : ∀ id t profile, s.db.get id = some t → s.origins[id]? = some (.made profile) →
    t.isEval = isEvalProfileName profile
  inherited : ∀ id t predecessor profile p, s.db.get id = some t →
    s.origins[id]? = some (.occurrence predecessor profile) → s.db.get predecessor = some p → t.isEval = p.isEval
  unlisted : ∀ row ∈ listTasks false s.db, ∀ origin, s.origins[row.1]? = some origin →
    isEvalProfileName origin.profile = false

/-- A creation that does not ask is under no evaluation profile, nor is an occurrence of a
    task that is not flagged. -/
def Resolved (s : St) : Event → Prop
  | .create _ creation =>
    creation.marks = false → isEvalProfileName (profileName s.profiles (creation.profileId uuid)) = false
  | .reschedule n _ _ =>
    ∀ task, s.dequeued[n]? = some task → task.isEval = false →
      isEvalProfileName (profileName s.profiles task.profileId) = false
  | _ => True

end Open

/-! ## What the list shows -/

theorem mem_numbered {db : Db} {row : Nat × Task} : row ∈ numbered db ↔ db.get row.1 = some row.2 := by
  rw [numbered, List.mem_filterMap]
  constructor
  · rintro ⟨id, -, h⟩
    obtain ⟨t, ht, rfl⟩ := Option.map_eq_some_iff.mp h
    exact ht
  · intro h
    refine ⟨row.1, List.mem_range.mpr ?_, by rw [h]; rfl⟩
    by_contra hge
    rw [db.fresh row.1 (Nat.le_of_not_lt hge)] at h
    cases h

theorem numbered_nodup (db : Db) : ((numbered db).map (·.1)).Nodup := by
  have hmap : (numbered db).map (·.1) = (List.range db.nextId).filter fun id => (db.get id).isSome := by
    unfold numbered
    induction List.range db.nextId with
    | nil => rfl
    | cons id ids ih =>
      cases h : db.get id with
      | none => simp [h, ih]
      | some task => simp [h, ih]
  rw [hmap]
  exact List.nodup_range.filter _

theorem mem_listTasks {db : Db} {row : Nat × Task} :
    row ∈ listTasks false db ↔
      db.get row.1 = some row.2 ∧ row.2.isEval = false ∧ row.2.status ≠ .deleted ∧ row.2.status ≠ .archived := by
  simp only [listTasks, List.mem_append, List.mem_mergeSort, List.mem_filter, mem_numbered]
  cases hs : row.2.status <;> simp

/-! ## The invariant -/

section Steps

variable {loads : String → Loads} {fromisoformat : String → Option Timestamp} {python : Python}
variable {uuid : String → Option Nat}

structure Inv (s : St) : Prop where
  length : s.origins.length = s.db.nextId
  made : ∀ id t profile, s.db.get id = some t → s.origins[id]? = some (.made profile) →
    t.isEval = isEvalProfileName profile
  inherited : ∀ id t predecessor profile, s.db.get id = some t →
    s.origins[id]? = some (.occurrence predecessor profile) → ∃ p, s.db.get predecessor = some p ∧ t.isEval = p.isEval
  plain : ∀ id t origin, s.db.get id = some t → s.origins[id]? = some origin → t.isEval = false →
    isEvalProfileName origin.profile = false
  snapshots : ∀ task ∈ s.dequeued, ∃ t, s.db.get task.id = some t ∧ t.isEval = task.isEval

theorem inv_start : Inv start where
  length := rfl
  made := by
    intro id t profile h
    cases h
  inherited := by
    intro id t predecessor profile h
    cases h
  plain := by
    intro id t origin h
    cases h
  snapshots := by
    intro task h
    cases h

theorem Inv.marked {s : St} (h : Inv s) : Marked s where
  made := h.made
  inherited := by
    intro id t predecessor profile p hget horigin hp
    obtain ⟨p', hp', heval⟩ := h.inherited id t predecessor profile hget horigin
    cases hp'.symm.trans hp
    exact heval
  unlisted := by
    intro row hrow origin horigin
    obtain ⟨hget, heval, -⟩ := mem_listTasks.mp hrow
    exact h.plain row.1 row.2 origin hget horigin heval

theorem get_insert_cases {db : Db} {t : Task} {id : Nat} {u : Task} (h : (db.insert t).get id = some u) :
    (id = db.nextId ∧ u = t) ∨ (id ≠ db.nextId ∧ db.get id = some u) := by
  by_cases heq : id = db.nextId
  · subst heq
    rw [Db.insert_self] at h
    exact .inl ⟨rfl, (Option.some.inj h).symm⟩
  · exact .inr ⟨heq, (Db.insert_other db t heq).symm.trans h⟩

theorem get_insert_old {db : Db} (t : Task) {id : Nat} {u : Task} (h : db.get id = some u) :
    (db.insert t).get id = some u := by
  refine (Db.insert_other db t ?_).trans h
  rintro rfl
  rw [db.fresh db.nextId (Nat.le_refl _)] at h
  cases h

theorem origin_append {s : St} (h : Inv s) {id : Nat} {origin new : Origin}
    (ho : (s.origins ++ [new])[id]? = some origin) :
    (id = s.db.nextId ∧ origin = new) ∨ s.origins[id]? = some origin := by
  rcases Slots.append_cases ho with ho | ⟨hid, rfl⟩
  · exact .inr ho
  · exact .inl ⟨hid.trans h.length, rfl⟩

theorem origin_old {s : St} (h : Inv s) {id : Nat} {origin : Origin} (ho : s.origins[id]? = some origin) :
    id ≠ s.db.nextId := by
  have hlt := (List.getElem?_eq_some_iff.mp ho).1
  rw [h.length] at hlt
  exact Nat.ne_of_lt hlt

/-- A new task, flagged as its origin says. -/
theorem inv_insert {s : St} (h : Inv s) {t : Task} {origin : Origin}
    (hmade : ∀ profile, origin = .made profile → t.isEval = isEvalProfileName profile)
    (hinherited : ∀ predecessor profile, origin = .occurrence predecessor profile →
      ∃ p, s.db.get predecessor = some p ∧ t.isEval = p.isEval)
    (hplain : t.isEval = false → isEvalProfileName origin.profile = false) :
    Inv { s with db := s.db.insert t, origins := s.origins ++ [origin] } where
  length := by simp [h.length]
  made := by
    intro id u profile hu ho
    rcases origin_append h ho with ⟨rfl, heq⟩ | ho
    · rcases get_insert_cases hu with ⟨-, rfl⟩ | ⟨hne, -⟩
      · exact hmade profile heq.symm
      · exact absurd rfl hne
    · rcases get_insert_cases hu with ⟨rfl, -⟩ | ⟨-, hu⟩
      · exact absurd rfl (origin_old h ho)
      · exact h.made id u profile hu ho
  inherited := by
    intro id u predecessor profile hu ho
    rcases origin_append h ho with ⟨rfl, heq⟩ | ho
    · rcases get_insert_cases hu with ⟨-, rfl⟩ | ⟨hne, -⟩
      · obtain ⟨p, hp, heval⟩ := hinherited predecessor profile heq.symm
        exact ⟨p, get_insert_old u hp, heval⟩
      · exact absurd rfl hne
    · rcases get_insert_cases hu with ⟨rfl, -⟩ | ⟨-, hu⟩
      · exact absurd rfl (origin_old h ho)
      · obtain ⟨p, hp, heval⟩ := h.inherited id u predecessor profile hu ho
        exact ⟨p, get_insert_old t hp, heval⟩
  plain := by
    intro id u origin' hu ho heval
    rcases origin_append h ho with ⟨rfl, rfl⟩ | ho
    · rcases get_insert_cases hu with ⟨-, rfl⟩ | ⟨hne, -⟩
      · exact hplain heval
      · exact absurd rfl hne
    · rcases get_insert_cases hu with ⟨rfl, -⟩ | ⟨-, hu⟩
      · exact absurd rfl (origin_old h ho)
      · exact h.plain id u origin' hu ho heval
  snapshots := by
    intro task hmem
    obtain ⟨u, hu, heval⟩ := h.snapshots task hmem
    exact ⟨u, get_insert_old t hu, heval⟩

/-- A row changes, but not its flag. -/
theorem inv_write {s : St} (h : Inv s) {id : Nat} {t old : Task} (hold : s.db.get id = some old)
    (hflag : t.isEval = old.isEval) : Inv { s with db := s.db.modify id fun _ => t } := by
  have hback : ∀ {j u}, (s.db.modify id fun _ => t).get j = some u → ∃ v, s.db.get j = some v ∧ v.isEval = u.isEval := by
    intro j u hu
    by_cases hj : j = id
    · subst hj
      rw [Db.modify_self, hold] at hu
      cases hu
      exact ⟨old, hold, hflag.symm⟩
    · exact ⟨u, (Db.modify_other s.db _ hj).symm.trans hu, rfl⟩
  have hforth : ∀ {j v}, s.db.get j = some v → ∃ u, (s.db.modify id fun _ => t).get j = some u ∧ u.isEval = v.isEval := by
    intro j v hv
    by_cases hj : j = id
    · subst hj
      cases hold.symm.trans hv
      exact ⟨t, by rw [Db.modify_self, hold]; rfl, hflag⟩
    · exact ⟨v, (Db.modify_other s.db _ hj).trans hv, rfl⟩
  refine ⟨h.length, ?_, ?_, ?_, ?_⟩
  · intro j u profile hu ho
    obtain ⟨v, hv, heval⟩ := hback hu
    rw [← heval]
    exact h.made j v profile hv ho
  · intro j u predecessor profile hu ho
    obtain ⟨v, hv, heval⟩ := hback hu
    obtain ⟨p, hp, hsame⟩ := h.inherited j v predecessor profile hv ho
    obtain ⟨q, hq, hqp⟩ := hforth hp
    exact ⟨q, hq, by rw [hqp, ← hsame, heval]⟩
  · intro j u origin hu ho hfalse
    obtain ⟨v, hv, heval⟩ := hback hu
    exact h.plain j v origin hv ho (heval.trans hfalse)
  · intro task hmem
    obtain ⟨v, hv, heval⟩ := h.snapshots task hmem
    obtain ⟨u, hu, huv⟩ := hforth hv
    exact ⟨u, hu, huv.trans heval⟩

/-! ## What each creation makes -/

theorem insertTask_some {db db' : Db} {profiles : Profiles} {t : Task} (h : insertTask db profiles t = some db') :
    db' = db.insert t := by
  unfold insertTask at h
  split at h
  · cases h
    rfl
  · cases h

theorem newRow_isEval (now : Timestamp) (profiles : Profiles) (f : Fields) (status : Status) (position : Int) :
    (newRow now profiles f status position).isEval =
      resolveIsEval profiles (newRow now profiles f status position).profileId := rfl

theorem createTaskFromFields_insert (now : Timestamp) (db : Db) (profiles : Profiles) (f : Fields) :
    ∃ t, createTaskFromFields now db profiles f = db.insert t ∧ t.isEval = resolveIsEval profiles t.profileId :=
  ⟨_, rfl, newRow_isEval ..⟩

theorem createTask_insert {now : Timestamp} {db db' : Db} {profiles : Profiles} {input : String} {asked : Asked}
    {email : Option String} (h : createTask loads fromisoformat now db profiles input asked email = some db') :
    ∃ t, db' = db.insert t ∧ t.isEval = resolveIsEval profiles t.profileId := by
  simp only [createTask] at h
  split at h
  · obtain ⟨interval, -, rfl⟩ := Option.map_eq_some_iff.mp h
    exact createTaskFromFields_insert ..
  · cases h
    exact createTaskFromFields_insert ..

theorem scheduleTask_insert {now : Timestamp} {db db' : Db} {profiles : Profiles} {description executeAt : String}
    {repeatInterval repeatUntil profile : Option String} {asked : Asked} {clientId : String}
    (h : TaskCreation.scheduleTask loads fromisoformat now db profiles description executeAt repeatInterval repeatUntil
      profile asked clientId = some db') :
    ∃ t, db' = db.insert t ∧ t.isEval = resolveIsEval profiles t.profileId := by
  obtain ⟨parsedExecuteAt, -, h⟩ := Option.bind_eq_some_iff.mp h
  obtain ⟨normalised, -, h⟩ := Option.bind_eq_some_iff.mp h
  obtain ⟨parsedRepeatUntil, -, h⟩ := Option.bind_eq_some_iff.mp h
  obtain ⟨profileId, -, rfl⟩ := Option.map_eq_some_iff.mp h
  exact ⟨_, rfl, newRow_isEval ..⟩

/-- A creation that asks flags its row by the row's profile; one that does not leaves it
    unflagged, under the profile it is configured with. -/
theorem create_insert {now : Timestamp} {db db' : Db} {profiles : Profiles} {creation : Creation}
    (h : create loads fromisoformat python uuid now db profiles creation = some db') :
    ∃ t, db' = db.insert t ∧ (creation.marks = true → t.isEval = resolveIsEval profiles t.profileId) ∧
      (creation.marks = false → t.isEval = false ∧ t.profileId = creation.profileId uuid) := by
  cases creation with
  | web input asked email =>
    rw [create] at h
    obtain ⟨t, ht, heval⟩ := createTask_insert h
    exact ⟨t, ht, fun _ => heval, fun hm => by cases hm⟩
  | draft draft owner extraTags =>
    rw [create, confirm] at h
    obtain ⟨f, -, rfl⟩ := Option.map_eq_some_iff.mp h
    obtain ⟨t, ht, heval⟩ := createTaskFromFields_insert now db profiles f
    exact ⟨t, ht, fun _ => heval, fun hm => by cases hm⟩
  | newTask description profile title asked clientId =>
    rw [create, TaskCreation.newTask] at h
    obtain ⟨explicit, -, rfl⟩ := Option.map_eq_some_iff.mp h
    exact ⟨_, rfl, fun _ => newRow_isEval .., fun hm => by cases hm⟩
  | scheduleTask description executeAt repeatInterval repeatUntil profile asked clientId =>
    rw [create] at h
    obtain ⟨t, ht, heval⟩ := scheduleTask_insert h
    exact ⟨t, ht, fun _ => heval, fun hm => by cases hm⟩
  | email subject description profileId asked =>
    rw [create] at h
    exact ⟨_, insertTask_some h, (fun hm => by cases hm), fun _ => ⟨rfl, rfl⟩⟩
  | webhook delivery =>
    rw [create] at h
    exact ⟨_, insertTask_some h, (fun hm => by cases hm), fun _ => ⟨rfl, rfl⟩⟩
  | review ref actions structured =>
    rw [create] at h
    obtain ⟨review, hreview, h⟩ := Option.bind_eq_some_iff.mp h
    refine ⟨_, insertTask_some h, (fun hm => by cases hm), fun _ => ⟨rfl, ?_⟩⟩
    unfold Reviews.reviewOf at hreview
    split at hreview
    · obtain ⟨profileId, hprofile, rfl⟩ := Option.map_eq_some_iff.mp hreview
      exact hprofile.symm
    · cases hreview

/-! ## What a step does -/

theorem step_create {s s' : St} {now : Timestamp} {creation : Creation} (h : Inv s)
    (hst : step loads fromisoformat python uuid s (.create now creation) = some s') :
    (Resolved uuid s (.create now creation) → Inv s') ∧ (Marked s' → Resolved uuid s (.create now creation)) := by
  obtain ⟨db, hcreate, rfl⟩ := Option.map_eq_some_iff.mp hst
  obtain ⟨t, rfl, hmarks, hplain⟩ := create_insert hcreate
  rw [Db.insert_self, Option.bind_some]
  cases hm : creation.marks with
  | true =>
    have heval := (hmarks hm).trans (resolveIsEval_eq s.profiles t.profileId)
    refine ⟨fun _ => inv_insert h ?_ nofun ?_, fun _ hfalse => ?_⟩
    · intro profile heq
      cases heq
      exact heval
    · intro hfalse
      exact heval.symm.trans hfalse
    · rw [hm] at hfalse
      cases hfalse
  | false =>
    obtain ⟨heval, hprofile⟩ := hplain hm
    constructor
    · intro hresolved
      have hname := hresolved hm
      rw [← hprofile] at hname
      refine inv_insert h ?_ nofun fun _ => hname
      intro profile heq
      cases heq
      rw [heval, hname]
    · intro hmarked _
      have hnew : (s.origins ++ [Origin.made (profileName s.profiles t.profileId)])[s.db.nextId]? =
          some (.made (profileName s.profiles t.profileId)) := by
        rw [← h.length]
        simp
      have hmade := hmarked.made s.db.nextId t _ (Db.insert_self s.db t) hnew
      rw [← hprofile, ← hmade, heval]

theorem step_reschedule {s s' : St} {n : Nat} {now executeAt : Timestamp} (h : Inv s)
    (hst : step loads fromisoformat python uuid s (.reschedule n now executeAt) = some s') :
    (Resolved uuid s (.reschedule n now executeAt) → Inv s') ∧ (Marked s' → Resolved uuid s (.reschedule n now executeAt)) := by
  obtain ⟨task, hn, hst⟩ := Option.bind_eq_some_iff.mp hst
  obtain ⟨db, hinsert, rfl⟩ := Option.map_eq_some_iff.mp hst
  obtain rfl := insertTask_some hinsert
  constructor
  · intro hresolved
    refine inv_insert h nofun ?_ ?_
    · intro predecessor profile heq
      cases heq
      obtain ⟨p, hp, heval⟩ := h.snapshots task (List.mem_of_getElem? hn)
      exact ⟨p, hp, heval.symm⟩
    · intro hfalse
      exact hresolved task hn hfalse
  · intro hmarked task' hn' hfalse
    cases hn.symm.trans hn'
    have hrow : (s.db.nextId, nextOccurrence now executeAt s.db task) ∈
        listTasks false (s.db.insert (nextOccurrence now executeAt s.db task)) :=
      mem_listTasks.mpr ⟨Db.insert_self .., hfalse, nofun, nofun⟩
    refine hmarked.unlisted _ hrow (.occurrence task.id (profileName s.profiles task.profileId)) ?_
    show (s.origins ++ [_])[s.db.nextId]? = _
    rw [← h.length]
    simp

theorem step_marked {s s' : St} {e : Event} (h : Inv s) (hst : step loads fromisoformat python uuid s e = some s') :
    (Resolved uuid s e → Inv s') ∧ (Marked s' → Resolved uuid s e) := by
  cases e with
  | setProfiles profiles =>
    cases hst
    exact ⟨fun _ => ⟨h.length, h.made, h.inherited, h.plain, h.snapshots⟩, fun _ => trivial⟩
  | create now creation => exact step_create h hst
  | write id t =>
    simp only [step] at hst
    split at hst
    · rename_i old hold
      split at hst
      · rename_i hflag
        cases hst
        exact ⟨fun _ => inv_write h hold hflag, fun _ => trivial⟩
      · cases hst
    · cases hst
  | dequeue id =>
    obtain ⟨t, ht, rfl⟩ := Option.map_eq_some_iff.mp hst
    refine ⟨fun _ => ⟨h.length, h.made, h.inherited, h.plain, ?_⟩, fun _ => trivial⟩
    intro task hmem
    rcases List.mem_append.mp hmem with hmem | hmem
    · exact h.snapshots task hmem
    · cases List.mem_singleton.mp hmem
      exact ⟨t, ht, rfl⟩
  | reschedule n now executeAt => exact step_reschedule h hst

/-! ## Main results -/

/-- Evaluation tasks are marked, and no list shows one, exactly where no creation that does
    not ask is under an evaluation profile, and no occurrence of an unflagged task. -/
theorem marked_throughout_iff (events : List Event) :
    (∀ n s, (machine loads fromisoformat python uuid).exec start (events.take n) = some s → Marked s) ↔
      ∀ p ∈ (machine loads fromisoformat python uuid).trace start events, Resolved uuid p.1 p.2 :=
  Machine.throughout_iff_meets (A := fun _ => True) (C := Resolved uuid) (I := Inv) (P := Marked)
    (fun _ h => h.marked) (fun _ _ _ hi _ hst => step_marked hi hst) inv_start fun _ _ => trivial

end Steps

/-! ## A mailbox with an evaluation profile -/

def python : Python := ⟨fun _ => .decodeError, fun _ => "", fun _ => false, fun _ => false, id⟩

/-- `uuid.UUID`, of one text. -/
def oneUuid (text : String) : Option Nat := if text.isEmpty then none else some 1

def mail : List Event :=
  [.setProfiles [("eval--gpt", 1)],
   .create 0 (.email "Hello" "A mail" (some "00000000-0000-0000-0000-000000000001") .unconfigured)]

/-- It makes a task that is not flagged, and that the list shows. -/
theorem an_email_is_not_marked :
    ∃ s, (machine (fun _ => .decodeError) (fun _ => none) python oneUuid).exec start mail = some s ∧ ¬ Marked s := by
  refine ⟨_, rfl, ?_⟩
  intro h
  have hmade := h.made 0 _ _ rfl rfl
  revert hmade
  decide

end Errand.Server.EvalMarking

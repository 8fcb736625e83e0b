import Errand.Server.EvalMarking
import Errand.Server.SlackUpdates
import Errand.Server.TaskEdits

/-
  Errand.Server.Announcements — the commands that change a task's status, and what they
  publish: `/task run` (`handle_run`, errand/platforms/slack/handlers.py), `PATCH` and
  `DELETE /api/tasks/{id}` and `POST /api/tasks` (main.py), a confirmed draft (clarify.py),
  the webhooks (platforms/jira/handler.py, platforms/github/handler.py) and the review task
  (`_dispatch_github`, external_status_updater.py).

  A command loads its task, commits, and publishes if it does so at all; between these,
  other commands go on, and the rest of the system does what it likes to the table. A write
  changes only the columns that differ from what was loaded. `publish_event` is taken as the
  publication: it gives an event up where there is no Valkey.

  Proved:
  - `commit_writes`: a commit changes the status of one task, to what its event carries,
    where it has one.
  - `respects_throughout_iff`: in a run, each change of a status has had its one event when
    its command is over, and no finished task is queued by its name alone, if and only if no
    `/task run` changes a status and no webhook's or review's task is committed.
  - `an_archived_task_is_queued`, `a_delivery_is_not_announced`: where that fails.
-/

namespace Errand.Server.Announcements

open Errand.Lib Errand.Lib.PyStr Errand.Runner Errand.Server.Tasks Errand.Server.TaskCreation Errand.Server.TaskEdits
open Errand.Server.SlackUpdates (Texts statusText taskResponse)
open Errand.Server.EvalMarking (numbered profileName insertTask webhookTask reviewTask)

section Open

variable (texts : Texts) (loads : String → Loads) (fromisoformat : String → Option Timestamp) (python : Python)

/-! ## `/task run` -/

/-- `column LIKE pattern`. -/
def like : List Char → List Char → Bool
  | [], s => s.isEmpty
  | '\\' :: c :: pattern, s =>
    match s with
    | [] => false
    | d :: s => c = d && like pattern s
  | '%' :: pattern, s => s.tails.any fun rest => like pattern rest
  | '_' :: pattern, s =>
    match s with
    | [] => false
    | _ :: s => like pattern s
  | c :: pattern, s =>
    match s with
    | [] => false
    | d :: s => c = d && like pattern s

/-- `find_task_by_prefix`; an error is the text of its blocks. -/
def findTaskByPrefix (db : Db) (text : String) : Except String (Nat × Task) :=
  let named := stripString text
  if named.isEmpty then .error "Please provide a task ID or prefix"
  else
    match texts.uuid named with
    | some id =>
      match db.get id with
      | some task => .ok (id, task)
      | none => .error s!"No task found with ID `{named}`"
    | none =>
      let safe := named.toList.flatMap fun c => if c = '%' ∨ c = '_' then ['\\', c] else [c]
      match (numbered db).filter fun row => like (safe ++ ['%']) (texts.uuidText row.1).toList with
      | [] => .error s!"No task found matching `{named}`"
      | [row] => .ok row
      | rows =>
        .error (s!"Ambiguous prefix `{named}` — matches {rows.length} tasks:\n" ++
          "\n".intercalate ((rows.take 5).map fun row =>
            "`" ++ String.ofList ((texts.uuidText row.1).toList.take 8) ++ "` " ++ row.2.title))

/-- The task `handle_run` queues. -/
def handleRun (db : Db) (args : String) : Except String (Nat × Task) :=
  if (stripString args).isEmpty then .error "Usage: `/task run <id>`"
  else
    (findTaskByPrefix texts db args).bind fun row =>
      if row.2.status = .running ∨ row.2.status = .pending then
        .error s!"Task is already `{statusText row.2.status}`"
      else .ok row

/-- Its write. -/
def queued (now : Timestamp) (email : String) (loaded t : Task) : Task :=
  { t with
    status := assign loaded.status .pending t.status
    updatedBy := assign loaded.updatedBy (some email) t.updatedBy
    updatedAt := now }

/-! ## Commands -/

inductive Command where
  | run (args email : String)
  | edit (id : Nat) (body : TaskUpdate) (email : Option String)
  | delete (id : Nat)
  | create (input : String) (asked : Asked) (email : Option String)
  | confirm (draft : Draft) (owner : String) (extraTags : List String)
  | webhook (delivery : ExternalTasks.Delivery)
  | review (ref : Reviews.ExternalTaskRef) (actions structured : Reviews.Fields)

/-- What a command has to write, with the row it loaded. -/
inductive Work where
  | run (id : Nat) (loaded : Task) (email : String)
  | edit (id : Nat) (loaded : Task) (body : TaskUpdate) (email : Option String)
  | delete (id : Nat) (loaded : Task)
  | create (input : String) (asked : Asked) (email : Option String)
  | confirm (draft : Draft) (owner : String) (extraTags : List String)
  | webhook (delivery : ExternalTasks.Delivery)
  | review (ref : Reviews.ExternalTaskRef) (actions structured : Reviews.Fields)

/-- The command only names a task. -/
def Work.namesOnly : Work → Bool
  | .run .. => true
  | .delete .. => true
  | _ => false

/-- The first read; none if the command is refused there. -/
def load (db : Db) : Command → Option Work
  | .run args email =>
    match handleRun texts db args with
    | .ok (id, task) => some (.run id task email)
    | .error _ => none
  | .edit id body email =>
    match db.get id with
    | some task => if task.status = .running then none else some (.edit id task body email)
    | none => none
  | .delete id => (db.get id).map (.delete id)
  | .create input asked email => some (.create input asked email)
  | .confirm draft owner extraTags => some (.confirm draft owner extraTags)
  | .webhook delivery => some (.webhook delivery)
  | .review ref actions structured => some (.review ref actions structured)

/-- An edited object, written over the row as it is by then. -/
def written (loaded new t : Task) (tags : Option (List String)) : Task :=
  { t with
    title := assign loaded.title new.title t.title
    description := assign loaded.description new.description t.description
    status := assign loaded.status new.status t.status
    updatedAt := assign loaded.updatedAt new.updatedAt t.updatedAt
    category := assign loaded.category new.category t.category
    executeAt := assign loaded.executeAt new.executeAt t.executeAt
    repeatInterval := assign loaded.repeatInterval new.repeatInterval t.repeatInterval
    repeatUntil := assign loaded.repeatUntil new.repeatUntil t.repeatUntil
    position := assign loaded.position new.position t.position
    output := assign loaded.output new.output t.output
    profileId := assign loaded.profileId new.profileId t.profileId
    updatedBy := assign loaded.updatedBy new.updatedBy t.updatedBy
    tags := tags.getD t.tags }

def causeText : Option Cause → Json
  | none => .null
  | some .noModelConfigured => .str "no_model_configured"
  | some .requestFailed => .str "request_failed"
  | some .unusableResponse => .str "unusable_response"

/-- The `classification` of a task created from `input`. -/
def classification (input : String) (asked : Asked) : Json :=
  let inputText := stripString input
  if (words inputText).length > 5 then
    let r := generateTitle loads inputText asked
    if !r.attempted then causeText r.cause
    else if !r.success ∨ r.description = none then .str "unclassified"
    else .str "classified"
  else .str "skipped"

/-- What a commit leaves: the table, the task, and the event that is published next. -/
structure Committed where
  db : Db
  id : Nat
  event : Option (String × SlackUpdates.Fields)

/-- A new row, announced as `task_created`. -/
def announced (profiles : Profiles) (classification : Json) (db db' : Db) : Committed :=
  ⟨db', db.nextId, (db'.get db.nextId).map fun t =>
    ("task_created",
      Json.setField "classification" classification (taskResponse texts (profileName profiles t.profileId) db.nextId t))⟩

/-- The commit of a command's work, if it does not fail; a row that is gone fails it. -/
def commit (now : Timestamp) (profiles : Profiles) (db : Db) : Work → Option Committed
  | .run id loaded email =>
    (db.get id).map fun _ => ⟨db.modify id (queued now email loaded), id, none⟩
  | .edit id loaded body email =>
    (db.get id).bind fun t =>
      match profileField texts.uuid profiles body.profileId loaded.profileId with
      | .error _ => none
      | .ok profileId =>
        let new := edited fromisoformat now db id loaded body profileId email
        some
          { db := mapRows db fun j row =>
              if j = id then written loaded new row body.tags
              else if new.status ≠ loaded.status then row
              else makeRoom now loaded.status loaded.position new.position row
            id := id
            event := some ("task_updated", taskResponse texts (profileName profiles profileId) id
              { new with tags := body.tags.getD t.tags }) }
  | .delete id loaded =>
    (db.get id).map fun _ =>
      ⟨db.modify id fun t => { t with
          status := assign loaded.status .deleted t.status
          updatedAt := if loaded.status = .deleted then t.updatedAt else now },
        id, some ("task_deleted", [("id", .str (texts.uuidText id))])⟩
  | .create input asked email =>
    (createTask loads fromisoformat now db profiles input asked email).map
      (announced texts profiles (classification loads input asked) db)
  | .confirm draft owner extraTags =>
    (TaskCreation.confirm fromisoformat now db profiles draft owner extraTags).map
      (announced texts profiles (.str "clarified") db)
  | .webhook delivery =>
    (insertTask db profiles (webhookTask now db delivery)).map fun db' => ⟨db', db.nextId, none⟩
  | .review ref actions structured =>
    (Reviews.reviewOf python texts.uuid ref actions structured).bind fun review =>
      (insertTask db profiles (reviewTask now review)).map fun db' => ⟨db', db.nextId, none⟩

/-! ## The machine -/

inductive Phase where
  | idle
  | loaded (work : Work)
  | publishing (event : String × SlackUpdates.Fields)
  | over

/-- A committed change of a task's status. -/
structure Change where
  command : Nat
  work : Work
  id : Nat
  before : Option Status
  status : Status

structure Published where
  command : Nat
  event : String
  task : SlackUpdates.Fields

structure St where
  db : Db
  phase : Nat → Phase
  changes : List Change
  published : List Published

def start (db : Db) : St := ⟨db, fun _ => .idle, [], []⟩

inductive Event where
  | begin (n : Nat) (command : Command)
  | commit (n : Nat) (now : Timestamp) (profiles : Profiles)
  /-- A command whose commit fails. -/
  | fail (n : Nat)
  | publish (n : Nat)
  /-- Whatever else writes to the table. -/
  | other (db : Db)

/-- The change a commit makes, if it makes one. -/
def changeOf (n : Nat) (work : Work) (id : Nat) (db db' : Db) : List Change :=
  match db'.status id with
  | none => []
  | some status => if db.status id = some status then [] else [⟨n, work, id, db.status id, status⟩]

def St.to (s : St) (n : Nat) (phase : Phase) : St := { s with phase := Function.update s.phase n phase }

def step (s : St) : Event → Option St
  | .begin n command =>
    match s.phase n with
    | .idle =>
      match load texts s.db command with
      | some work => some (s.to n (.loaded work))
      | none => some (s.to n .over)
    | _ => none
  | .commit n now profiles =>
    match s.phase n with
    | .loaded work =>
      (commit texts loads fromisoformat python now profiles s.db work).map fun c =>
        { db := c.db
          phase := Function.update s.phase n (match c.event with
            | some event => .publishing event
            | none => .over)
          changes := s.changes ++ changeOf n work c.id s.db c.db
          published := s.published }
    | _ => none
  | .fail n =>
    match s.phase n with
    | .loaded _ => some (s.to n .over)
    | _ => none
  | .publish n =>
    match s.phase n with
    | .publishing (event, task) =>
      some { s.to n .over with published := s.published ++ [⟨n, event, task⟩] }
    | _ => none
  | .other db => some { s with db := db }

def machine : Machine St Event := ⟨fun s => ∃ db, s = start db, step texts loads fromisoformat python⟩

/-! ## What users see -/

/-- An event says the status: under `status`, or by being a deletion. -/
def Carries (event : String) (task : SlackUpdates.Fields) (status : Status) : Prop :=
  Json.lookup "status" task = some (.str (statusText status)) ∨ (event = "task_deleted" ∧ status = .deleted)

/-- The events a command has published. -/
def St.events (s : St) (n : Nat) : List Published := s.published.filter fun p => p.command = n

structure Respects (s : St) : Prop where
  /-- A change whose command is over had one event, with its status. -/
  told : ∀ change ∈ s.changes, s.phase change.command = .over →
    ∃ p, s.events change.command = [p] ∧ Carries p.event p.task change.status
  /-- One whose command is not has its event to come. -/
  coming : ∀ change ∈ s.changes, s.phase change.command ≠ .over →
    s.events change.command = [] ∧ ∃ event task, s.phase change.command = .publishing (event, task) ∧
      Carries event task change.status
  kept : ∀ change ∈ s.changes, change.work.namesOnly = true →
    change.before = some .deleted ∨ change.before = some .archived → change.status ≠ .pending

/-- What may be committed: a `/task run` where the task is pending by then, and no webhook's or
    review's task. -/
def Work.MayCommit (db : Db) : Work → Prop
  | .run id _ _ => db.status id = some .pending
  | .webhook _ => False
  | .review .. => False
  | _ => True

def Told (s : St) : Event → Prop
  | .commit n _ _ => ∀ work, s.phase n = .loaded work → work.MayCommit s.db
  | _ => True

/-! ## What a commit writes -/

variable {texts loads fromisoformat python}

/-- The commands that publish nothing. -/
def Work.silent : Work → Bool
  | .run .. => true
  | .webhook _ => true
  | .review .. => true
  | _ => false

/-- A queued task was neither running nor pending when it was loaded. -/
def Work.Loaded : Work → Prop
  | .run _ loaded _ => loaded.status ≠ .pending
  | _ => True

theorem taskResponse_status (profile : Option String) (id : Nat) (t : Task) :
    Json.lookup "status" (taskResponse texts profile id t) = some (.str (statusText t.status)) := by
  simp [taskResponse, SlackUpdates.full, SlackUpdates.leading, Json.lookup]

/-- What a commit does to the statuses. -/
structure Writes (db : Db) (work : Work) (c : Committed) : Prop where
  others : ∀ j, j ≠ c.id → c.db.status j = db.status j
  row : (c.db.status c.id).isSome = true
  silent : c.event = none ↔ work.silent = true
  /-- An event carries the status that was committed. -/
  carries : ∀ event task status, c.event = some (event, task) → c.db.status c.id = some status →
    db.status c.id ≠ some status → Carries event task status
  /-- A deletion deletes. -/
  deletes : ∀ status, work.namesOnly = true → c.event ≠ none → c.db.status c.id = some status →
    db.status c.id ≠ some status → status = .deleted
  /-- A task that is queued is pending, and one that is delivered is new. -/
  queues : ∀ id loaded email, work = .run id loaded email → c.id = id ∧ c.db.status id = some .pending
  delivers : work.silent = true → work.namesOnly = false → db.status c.id = none

theorem status_insert_self (db : Db) (t : Task) : (db.insert t).status db.nextId = some t.status := by
  rw [status_insert, Function.update_self]

theorem status_fresh (db : Db) : db.status db.nextId = none := by
  rw [Db.status, db.fresh _ (le_refl _)]
  rfl

theorem writes_announced (profiles : Profiles) (classification : Json) {db : Db} {work : Work} (t : Task)
    (hs : work.silent = false) (hn : work.namesOnly = false) (hr : ∀ id loaded email, work ≠ .run id loaded email) :
    Writes db work (announced texts profiles classification db (db.insert t)) where
  others j hj := status_insert_other db t hj
  row := by
    show ((db.insert t).status db.nextId).isSome = true
    rw [status_insert_self]
    rfl
  silent := by
    rw [hs]
    simp [announced]
  carries event task status hevent hstatus _ := by
    have hstatus : (db.insert t).status db.nextId = some status := hstatus
    rw [status_insert_self] at hstatus
    cases hstatus
    simp only [announced, Db.insert_self, Option.map_some, Option.some.injEq, Prod.mk.injEq] at hevent
    obtain ⟨rfl, rfl⟩ := hevent
    left
    rw [Json.lookup_setField_other _ (by decide)]
    exact taskResponse_status ..
  deletes _ h := by
    rw [hn] at h
    cases h
  queues id loaded email h := absurd h (hr id loaded email)
  delivers h := by
    rw [hs] at h
    cases h

theorem writes_unannounced {db : Db} {work : Work} (t : Task) (hs : work.silent = true)
    (hr : ∀ id loaded email, work ≠ .run id loaded email) : Writes db work ⟨db.insert t, db.nextId, none⟩ where
  others j hj := status_insert_other db t hj
  row := by rw [status_insert_self]; rfl
  silent := iff_of_true rfl hs
  carries _ _ _ h := by cases h
  deletes _ _ h := absurd rfl h
  queues id loaded email h := absurd h (hr id loaded email)
  delivers _ _ := status_fresh db

theorem assign_new {loaded new : Status} (h : new ≠ loaded) (current : Status) : assign loaded new current = new :=
  if_neg h

/-- The status of an edited row is the object's, or stays. -/
theorem written_status (loaded new t : Task) (tags : Option (List String)) :
    (written loaded new t tags).status = if new.status = loaded.status then t.status else new.status := rfl

theorem writes_run {now : Timestamp} {db : Db} {id : Nat} {loaded t : Task} {email : String} (ht : db.get id = some t)
    (hl : loaded.status ≠ .pending) :
    Writes db (.run id loaded email) ⟨db.modify id (queued now email loaded), id, none⟩ := by
  have hqueued : (db.modify id (queued now email loaded)).status = Function.update db.status id (some .pending) :=
    status_modify (fun t => assign_new (fun heq => hl heq.symm) t.status) (by simp [Db.has, ht])
  refine ⟨fun j hj => status_modify_other db _ hj, ?_, iff_of_true rfl rfl, (fun _ _ _ h => by cases h),
    fun _ _ h => absurd rfl h, ?_, (fun _ h => by cases h)⟩
  · rw [hqueued, Function.update_self]
    rfl
  · intro _ _ _ hw
    cases hw
    exact ⟨rfl, by rw [hqueued, Function.update_self]⟩

/-- A deletion changes a status to `deleted`, or leaves it. -/
theorem deleted_status {now : Timestamp} {db : Db} {id : Nat} {loaded : Task} {status : Status}
    (h : (db.modify id fun t => { t with
      status := assign loaded.status .deleted t.status
      updatedAt := if loaded.status = .deleted then t.updatedAt else now }).status id = some status)
    (hne : db.status id ≠ some status) : status = .deleted := by
  simp only [Db.status, Db.modify_self, Option.map_map] at h
  obtain ⟨t, ht, hstatus⟩ := Option.map_eq_some_iff.mp h
  simp only [Function.comp_apply, assign] at hstatus
  split at hstatus
  · exact absurd (by rw [Db.status, ht, ← hstatus]; rfl) hne
  · exact hstatus.symm

theorem writes_delete {now : Timestamp} {db : Db} {id : Nat} {loaded t : Task} (task : SlackUpdates.Fields)
    (ht : db.get id = some t) :
    Writes db (.delete id loaded)
      ⟨db.modify id fun t => { t with
          status := assign loaded.status .deleted t.status
          updatedAt := if loaded.status = .deleted then t.updatedAt else now },
        id, some ("task_deleted", task)⟩ := by
  refine ⟨fun j hj => status_modify_other db _ hj, ?_, iff_of_false nofun nofun, ?_, ?_, (fun _ _ _ h => by cases h),
    (fun h => by cases h)⟩
  · simp [Db.status, ht]
  · intro event task status hevent hstatus hne
    cases hevent
    exact .inr ⟨rfl, deleted_status hstatus hne⟩
  · intro status _ _ hstatus hne
    exact deleted_status hstatus hne

theorem writes_edit {now : Timestamp} {db : Db} {id : Nat} {loaded new t : Task} {body : TaskUpdate}
    {email : Option String} {profile : Option String} (ht : db.get id = some t) :
    Writes db (.edit id loaded body email)
      { db := mapRows db fun j row =>
          if j = id then written loaded new row body.tags
          else if new.status ≠ loaded.status then row
          else makeRoom now loaded.status loaded.position new.position row
        id := id
        event := some ("task_updated", taskResponse texts profile id { new with tags := body.tags.getD t.tags }) } := by
  refine ⟨fun j hj => ?_, ?_, iff_of_false nofun nofun, ?_, (fun _ h => by cases h), (fun _ _ _ h => by cases h),
    (fun h => by cases h)⟩
  · simp only [Db.status, mapRows, if_neg hj, Option.map_map]
    congr 1
    funext row
    simp only [Function.comp_apply]
    split
    · rfl
    · exact (makeRoom_kept ..).1
  · simp [Db.status, mapRows, ht]
  · intro event task status hevent hstatus hne
    cases hevent
    left
    rw [taskResponse_status]
    simp only [Db.status, mapRows, ht, Option.map_some, if_pos, Option.some.injEq, written_status] at hstatus hne
    split at hstatus
    · exact absurd (congrArg some hstatus) hne
    · rw [← hstatus]

/-- Every commit writes one status, to what its event carries. -/
theorem commit_writes {now : Timestamp} {profiles : Profiles} {db : Db} {work : Work} {c : Committed}
    (hl : work.Loaded) (h : commit texts loads fromisoformat python now profiles db work = some c) :
    Writes db work c := by
  cases work with
  | run id loaded email =>
    rw [commit] at h
    obtain ⟨t, ht, rfl⟩ := Option.map_eq_some_iff.mp h
    exact writes_run ht hl
  | edit id loaded body email =>
    rw [commit] at h
    obtain ⟨t, ht, h⟩ := Option.bind_eq_some_iff.mp h
    split at h
    · cases h
    · cases Option.some.inj h
      exact writes_edit ht
  | delete id loaded =>
    rw [commit] at h
    obtain ⟨t, ht, rfl⟩ := Option.map_eq_some_iff.mp h
    exact writes_delete _ ht
  | create input asked email =>
    rw [commit] at h
    obtain ⟨db', hcreate, rfl⟩ := Option.map_eq_some_iff.mp h
    obtain ⟨t, rfl, -⟩ := EvalMarking.createTask_insert hcreate
    exact writes_announced profiles _ t rfl rfl fun _ _ _ hw => by cases hw
  | confirm draft owner extraTags =>
    rw [commit] at h
    obtain ⟨db', hcreate, rfl⟩ := Option.map_eq_some_iff.mp h
    rw [TaskCreation.confirm] at hcreate
    obtain ⟨f, -, hcreated⟩ := Option.map_eq_some_iff.mp hcreate
    obtain ⟨t, ht, -⟩ := EvalMarking.createTaskFromFields_insert now db profiles f
    rw [ht] at hcreated
    subst hcreated
    exact writes_announced profiles _ t rfl rfl fun _ _ _ hw => by cases hw
  | webhook delivery =>
    rw [commit] at h
    obtain ⟨db', hinsert, rfl⟩ := Option.map_eq_some_iff.mp h
    obtain rfl := EvalMarking.insertTask_some hinsert
    exact writes_unannounced _ rfl fun _ _ _ hw => by cases hw
  | review ref actions structured =>
    rw [commit] at h
    obtain ⟨review, -, h⟩ := Option.bind_eq_some_iff.mp h
    obtain ⟨db', hinsert, rfl⟩ := Option.map_eq_some_iff.mp h
    obtain rfl := EvalMarking.insertTask_some hinsert
    exact writes_unannounced _ rfl fun _ _ _ hw => by cases hw

theorem mem_changeOf {n id : Nat} {work : Work} {db db' : Db} {change : Change}
    (h : change ∈ changeOf n work id db db') :
    ∃ status, db'.status id = some status ∧ db.status id ≠ some status ∧
      change = ⟨n, work, id, db.status id, status⟩ := by
  unfold changeOf at h
  split at h
  · cases h
  · rename_i status hstatus
    split at h
    · cases h
    · rename_i hne
      exact ⟨status, hstatus, hne, List.mem_singleton.mp h⟩

theorem changeOf_eq_nil {n id : Nat} {work : Work} {db db' : Db} {status : Status} (h : db'.status id = some status) :
    changeOf n work id db db' = [] ↔ db.status id = some status := by
  unfold changeOf
  rw [h]
  simp

/-! ## What the steps keep -/

/-- Only a command that has committed has changed anything, and only one that is over has
    published. -/
structure Inv (s : St) : Prop where
  past : ∀ change ∈ s.changes, s.phase change.command = .over ∨ ∃ event, s.phase change.command = .publishing event
  told : ∀ p ∈ s.published, s.phase p.command = .over
  loaded : ∀ n work, s.phase n = .loaded work → work.Loaded

theorem inv_start (db : Db) : Inv (start db) where
  past _ h := by cases h
  told _ h := by cases h
  loaded _ _ h := by cases h

theorem to_self (s : St) (n : Nat) (phase : Phase) : (s.to n phase).phase n = phase := Function.update_self ..

theorem to_other (s : St) {n m : Nat} (phase : Phase) (h : m ≠ n) : (s.to n phase).phase m = s.phase m :=
  Function.update_of_ne h ..

/-- A command that has not committed. -/
def Phase.before : Phase → Bool
  | .idle => true
  | .loaded _ => true
  | _ => false

theorem command_ne {s : St} (hi : Inv s) {n : Nat} (hn : (s.phase n).before = true) {change : Change}
    (h : change ∈ s.changes) : change.command ≠ n := by
  rintro rfl
  rcases hi.past change h with hover | ⟨event, hpublishing⟩
  · rw [hover] at hn
    cases hn
  · rw [hpublishing] at hn
    cases hn

theorem events_nil {s : St} (hi : Inv s) {n : Nat} (hn : s.phase n ≠ .over) : s.events n = [] := by
  rw [St.events, List.filter_eq_nil_iff]
  intro p hp hcommand
  exact hn (of_decide_eq_true hcommand ▸ hi.told p hp)

/-- A command that has not committed goes on, or gives up. -/
theorem inv_to {s : St} (hi : Inv s) {n : Nat} (hn : (s.phase n).before = true) {phase : Phase}
    (hl : ∀ work, phase = .loaded work → work.Loaded) : Inv (s.to n phase) := by
  refine ⟨fun change hc => ?_, fun p hp => ?_, fun m work h => ?_⟩
  · rw [to_other s phase (command_ne hi hn hc)]
    exact hi.past change hc
  · have hne : p.command ≠ n := by
      intro heq
      rw [← heq, hi.told p hp] at hn
      cases hn
    rw [to_other s phase hne]
    exact hi.told p hp
  · by_cases hm : m = n
    · subst hm
      rw [to_self] at h
      exact hl work h
    · rw [to_other s phase hm] at h
      exact hi.loaded m work h

theorem respects_to {s : St} (hi : Inv s) (hr : Respects s) {n : Nat} (hn : (s.phase n).before = true) (phase : Phase) :
    Respects (s.to n phase) := by
  have hphase : ∀ change ∈ s.changes, (s.to n phase).phase change.command = s.phase change.command :=
    fun change hc => to_other s phase (command_ne hi hn hc)
  refine ⟨fun change hc h => ?_, fun change hc h => ?_, hr.kept⟩
  · rw [hphase change hc] at h
    exact hr.told change hc h
  · rw [hphase change hc] at h ⊢
    exact hr.coming change hc h

theorem handleRun_loaded {db : Db} {args : String} {row : Nat × Task} (h : handleRun texts db args = .ok row) :
    row.2.status ≠ .pending := by
  unfold handleRun at h
  split at h
  · cases h
  · cases hf : findTaskByPrefix texts db args with
    | error text =>
      rw [hf] at h
      cases h
    | ok found =>
      rw [hf] at h
      simp only [Except.bind] at h
      split at h
      · cases h
      · rename_i hstatus
        cases h
        exact fun hp => hstatus (.inr hp)

theorem load_loaded {db : Db} {command : Command} {work : Work} (h : load texts db command = some work) :
    work.Loaded := by
  cases command with
  | run args email =>
    rw [load] at h
    split at h
    · rename_i id task hrun
      cases h
      exact handleRun_loaded hrun
    · cases h
  | edit id body email =>
    rw [load] at h
    split at h
    · split at h
      · cases h
      · cases h
        trivial
    · cases h
  | delete id =>
    rw [load] at h
    obtain ⟨task, -, rfl⟩ := Option.map_eq_some_iff.mp h
    trivial
  | _ =>
    cases h
    trivial

section Commits

variable {s : St} {n : Nat} {work : Work} {c : Committed}

/-- The state after a commit. -/
def committedTo (s : St) (n : Nat) (work : Work) (c : Committed) : St where
  db := c.db
  phase := Function.update s.phase n (match c.event with
    | some event => .publishing event
    | none => .over)
  changes := s.changes ++ changeOf n work c.id s.db c.db
  published := s.published

theorem committed_other (s : St) (work : Work) (c : Committed) {m : Nat} (h : m ≠ n) :
    (committedTo s n work c).phase m = s.phase m := Function.update_of_ne h ..

theorem committed_phase (s : St) (work : Work) (c : Committed) :
    (c.event = none ∧ (committedTo s n work c).phase n = .over) ∨
      ∃ event task, c.event = some (event, task) ∧ (committedTo s n work c).phase n = .publishing (event, task) := by
  cases he : c.event with
  | none => exact .inl ⟨rfl, by simp [committedTo, he]⟩
  | some event => exact .inr ⟨event.1, event.2, rfl, by simp [committedTo, he]⟩

theorem committed_inv (hi : Inv s) (hn : s.phase n = .loaded work) : Inv (committedTo s n work c) := by
  have hbefore : (s.phase n).before = true := by rw [hn]; rfl
  refine ⟨fun change hc => ?_, fun p hp => ?_, fun m w h => ?_⟩
  · rcases List.mem_append.mp hc with hc | hc
    · rw [committed_other s work c (command_ne hi hbefore hc)]
      exact hi.past change hc
    · obtain ⟨status, -, -, rfl⟩ := mem_changeOf hc
      rcases committed_phase s work c with ⟨-, h⟩ | ⟨event, task, -, h⟩
      · exact .inl h
      · exact .inr ⟨_, h⟩
  · have hne : p.command ≠ n := by
      intro heq
      rw [← heq, hi.told p hp] at hn
      cases hn
    rw [committed_other s work c hne]
    exact hi.told p hp
  · by_cases hm : m = n
    · subst hm
      rcases committed_phase s work c with ⟨-, hover⟩ | ⟨event, task, -, hpublishing⟩
      · rw [hover] at h
        cases h
      · rw [hpublishing] at h
        cases h
    · rw [committed_other s work c hm] at h
      exact hi.loaded m w h

/-- A commit is told of exactly if it changes nothing, or has an event. -/
theorem committed_respects (hi : Inv s) (hn : s.phase n = .loaded work) (hw : Writes s.db work c) (hr : Respects s) :
    Respects (committedTo s n work c) ↔ (work.silent = true → changeOf n work c.id s.db c.db = []) := by
  have hbefore : (s.phase n).before = true := by rw [hn]; rfl
  have hnone : (committedTo s n work c).events n = [] := events_nil (s := s) hi (by rw [hn]; nofun)
  have hold : ∀ change ∈ s.changes, (committedTo s n work c).phase change.command = s.phase change.command :=
    fun change hc => committed_other s work c (command_ne hi hbefore hc)
  constructor
  · intro hr' hsilent
    have hover : (committedTo s n work c).phase n = .over := by
      rcases committed_phase s work c with ⟨-, h⟩ | ⟨event, task, he, -⟩
      · exact h
      · rw [hw.silent.mpr hsilent] at he
        cases he
    by_contra hne
    obtain ⟨change, hc⟩ := List.exists_mem_of_ne_nil _ hne
    obtain ⟨status, -, -, rfl⟩ := mem_changeOf hc
    obtain ⟨p, hp, -⟩ := hr'.told _ (List.mem_append_right _ hc) hover
    rw [hnone] at hp
    cases hp
  · intro h
    -- a change that this commit makes has its event to come
    have hnew : ∀ change ∈ changeOf n work c.id s.db c.db, change.command = n ∧
        (∃ event task, (committedTo s n work c).phase n = .publishing (event, task) ∧
          Carries event task change.status) ∧
        (change.work.namesOnly = true → change.status = .deleted) := by
      intro change hc
      obtain ⟨status, hstatus, hne, rfl⟩ := mem_changeOf hc
      rcases committed_phase s work c with ⟨he, -⟩ | ⟨event, task, he, hphase⟩
      · rw [h (hw.silent.mp he)] at hc
        cases hc
      · refine ⟨rfl, ⟨event, task, hphase, hw.carries event task status he hstatus hne⟩, fun hnames => ?_⟩
        exact hw.deletes status hnames (by rw [he]; nofun) hstatus hne
    refine ⟨fun change hc hover => ?_, fun change hc hnot => ?_, fun change hc hnames hbefore => ?_⟩
    · rcases List.mem_append.mp hc with hc | hc
      · rw [hold change hc] at hover
        exact hr.told change hc hover
      · obtain ⟨hcommand, ⟨event, task, hphase, -⟩, -⟩ := hnew change hc
        rw [hcommand, hphase] at hover
        cases hover
    · rcases List.mem_append.mp hc with hc | hc
      · rw [hold change hc] at hnot ⊢
        exact hr.coming change hc hnot
      · obtain ⟨hcommand, hcoming, -⟩ := hnew change hc
        rw [hcommand]
        exact ⟨hnone, hcoming⟩
    · rcases List.mem_append.mp hc with hc | hc
      · exact hr.kept change hc hnames hbefore
      · rw [(hnew change hc).2.2 hnames]
        nofun

/-- A silent commit changes nothing exactly if it queues a task that is pending already. -/
theorem silent_iff (hw : Writes s.db work c) :
    (work.silent = true → changeOf n work c.id s.db c.db = []) ↔ work.MayCommit s.db := by
  have hdelivered : work.silent = true → work.namesOnly = false → changeOf n work c.id s.db c.db ≠ [] := by
    intro hs hn
    obtain ⟨status, hstatus⟩ := Option.isSome_iff_exists.mp hw.row
    rw [Ne, changeOf_eq_nil hstatus, hw.delivers hs hn]
    nofun
  cases work with
  | run id loaded email =>
    obtain ⟨hid, hstatus⟩ := hw.queues id loaded email rfl
    rw [hid, changeOf_eq_nil hstatus, Work.MayCommit]
    exact ⟨fun h => h rfl, fun h _ => h⟩
  | webhook delivery => exact iff_of_false (fun h => hdelivered rfl rfl (h rfl)) id
  | review ref actions structured => exact iff_of_false (fun h => hdelivered rfl rfl (h rfl)) id
  | _ => exact iff_of_true (fun h => by cases h) trivial

end Commits

theorem published_inv {s : St} (hi : Inv s) {n : Nat} {event : String} {task : SlackUpdates.Fields}
    (hn : s.phase n = .publishing (event, task)) :
    Inv { s.to n .over with published := s.published ++ [⟨n, event, task⟩] } := by
  have hover : ∀ m, s.phase m = .over → (s.to n .over).phase m = .over := by
    intro m hm
    by_cases heq : m = n
    · rw [heq, to_self]
    · rw [to_other s .over heq]
      exact hm
  refine ⟨fun change hc => ?_, fun p hp => ?_, fun m work h => ?_⟩
  · by_cases heq : change.command = n
    · left
      rw [heq]
      exact to_self s n .over
    · rcases hi.past change hc with h | ⟨e, h⟩
      · exact .inl (hover _ h)
      · exact .inr ⟨e, (to_other s .over heq).trans h⟩
  · rcases List.mem_append.mp hp with hp | hp
    · exact hover _ (hi.told p hp)
    · rw [List.mem_singleton.mp hp]
      exact to_self s n .over
  · by_cases hm : m = n
    · subst hm
      cases (to_self s m .over).symm.trans h
    · exact hi.loaded m work ((to_other s .over hm).symm.trans h)

theorem published_respects {s : St} (hr : Respects s) {n : Nat} {event : String} {task : SlackUpdates.Fields}
    (hn : s.phase n = .publishing (event, task)) :
    Respects { s.to n .over with published := s.published ++ [⟨n, event, task⟩] } := by
  have hevents : ∀ m, m ≠ n → St.events { s.to n .over with published := s.published ++ [⟨n, event, task⟩] } m =
      s.events m := by
    intro m hm
    simp [St.events, List.filter_append, Ne.symm hm]
  refine ⟨fun change hc hover => ?_, fun change hc hnot => ?_, hr.kept⟩
  · by_cases heq : change.command = n
    · obtain ⟨hnone, event', task', hphase, hcarries⟩ := hr.coming change hc (by rw [heq, hn]; nofun)
      rw [heq, hn] at hphase
      cases hphase
      refine ⟨⟨n, event, task⟩, ?_, hcarries⟩
      rw [heq] at hnone ⊢
      unfold St.events at hnone ⊢
      simp [List.filter_append, hnone]
    · rw [hevents _ heq]
      exact hr.told change hc ((to_other s .over heq).symm.trans hover)
  · by_cases heq : change.command = n
    · refine absurd ?_ hnot
      rw [heq]
      exact to_self s n .over
    · rw [hevents _ heq]
      obtain ⟨hnone, event', task', hphase, hcarries⟩ :=
        hr.coming change hc fun h => hnot ((to_other s .over heq).trans h)
      exact ⟨hnone, event', task', (to_other s .over heq).trans hphase, hcarries⟩

/-- Only a commit can go wrong. -/
theorem step_respects {s s' : St} {e : Event} (hi : Inv s)
    (hst : step texts loads fromisoformat python s e = some s') :
    Inv s' ∧ (Respects s → (Respects s' ↔ Told s e)) := by
  cases e with
  | begin n command =>
    rw [step] at hst
    split at hst
    · rename_i hn
      have hbefore : (s.phase n).before = true := by rw [hn]; rfl
      split at hst
      · rename_i work hload
        cases hst
        refine ⟨inv_to hi hbefore fun w hw => ?_, fun hr => iff_of_true (respects_to hi hr hbefore _) trivial⟩
        cases hw
        exact load_loaded hload
      · cases hst
        exact ⟨inv_to hi hbefore (fun _ h => by cases h), fun hr => iff_of_true (respects_to hi hr hbefore _) trivial⟩
    · cases hst
  | commit n now profiles =>
    rw [step] at hst
    split at hst
    · rename_i work hn
      obtain ⟨c, hc, rfl⟩ := Option.map_eq_some_iff.mp hst
      have hw := commit_writes (hi.loaded n work hn) hc
      refine ⟨committed_inv hi hn, fun hr => ?_⟩
      have htold : Told s (.commit n now profiles) ↔ work.MayCommit s.db := by
        refine ⟨fun h => h work hn, fun h w hw' => ?_⟩
        rw [hn] at hw'
        cases hw'
        exact h
      rw [htold]
      exact (committed_respects hi hn hw hr).trans (silent_iff hw)
    · cases hst
  | fail n =>
    rw [step] at hst
    split at hst
    · rename_i work hn
      have hbefore : (s.phase n).before = true := by rw [hn]; rfl
      cases hst
      exact ⟨inv_to hi hbefore (fun _ h => by cases h), fun hr => iff_of_true (respects_to hi hr hbefore _) trivial⟩
    · cases hst
  | publish n =>
    rw [step] at hst
    split at hst
    · rename_i event task hn
      cases hst
      exact ⟨published_inv hi hn, fun hr => iff_of_true (published_respects hr hn) trivial⟩
    · cases hst
  | other db =>
    cases hst
    exact ⟨⟨hi.past, hi.told, hi.loaded⟩, fun hr => iff_of_true ⟨hr.told, hr.coming, hr.kept⟩ trivial⟩

theorem respects_start (db : Db) : Respects (start db) where
  told _ h := by cases h
  coming _ h := by cases h
  kept _ h := by cases h

/-- Every change is told of, and no finished task is queued by name, exactly in the runs in
    which no `/task run` changes a status and no webhook's or review's task is committed. -/
theorem respects_throughout_iff (db : Db) (events : List Event) :
    (∀ n s, (machine texts loads fromisoformat python).exec (start db) (events.take n) = some s → Respects s) ↔
      ∀ p ∈ (machine texts loads fromisoformat python).trace (start db) events, Told p.1 p.2 := by
  have h : (∀ n s, (machine texts loads fromisoformat python).exec (start db) (events.take n) = some s → Respects s) ↔
      Respects (start db) ∧ ∀ p ∈ (machine texts loads fromisoformat python).trace (start db) events, Told p.1 p.2 :=
    Machine.throughout_iff (M := machine texts loads fromisoformat python) (A := fun _ => True) (C := Told) (I := Inv)
      (P := Respects) (fun s e s' hi _ hst => step_respects hi hst) (inv_start db) fun _ _ => trivial
  rw [h]
  exact and_iff_right (respects_start db)

end Open

/-! ## Two runs -/

/-- The texts of a table with one task. -/
def oneTask : Texts where
  uuidText _ := "0f8fad5b-d9cb-469f-a165-70867728950e"
  uuid text := if text = "0f8fad5b-d9cb-469f-a165-70867728950e" then some 0 else none
  isoformat _ := "2026-01-05T09:00:00+00:00"
  dumped _ := "2026-01-05T09:00:00Z"
  str _ := "None"

def board (texts : Texts) : Machine St Event := machine texts (fun _ => .decodeError) (fun _ => none) EvalMarking.python

/-- `/task run 0f8f`, of an archived task. -/
def queueing : List Event := [.begin 0 (.run "0f8f" "ada@example.com"), .commit 0 5 []]

/-- It is pending again, and nobody is told. -/
theorem an_archived_task_is_queued :
    ∃ s, (board oneTask).exec (start (dbOf (SlackUpdates.someTask .archived))) queueing = some s ∧
      s.db.status 0 = some .pending ∧ s.published.length = 0 ∧ ¬ Respects s := by
  refine ⟨_, rfl, rfl, rfl, fun h => ?_⟩
  exact h.kept _ (List.mem_singleton.mpr rfl) rfl (.inr rfl) rfl

/-- A webhook's task, which no board hears of. -/
theorem a_delivery_is_not_announced :
    ∃ s, (board oneTask).exec (start ⟨0, fun _ => none, Db.fresh_none⟩)
        [.begin 0 (.webhook (ExternalTasks.issue "A-1")), .commit 0 5 []] = some s ∧
      s.db.status 0 = some .pending ∧ s.phase 0 = .over ∧ s.published.length = 0 :=
  ⟨_, rfl, rfl, rfl, rfl⟩

end Errand.Server.Announcements

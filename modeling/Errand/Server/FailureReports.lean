import Errand.Server.Lifecycle
import Errand.Server.Orphans
import Errand.Server.Reviews
import Errand.Server.SlackUpdates

/-
  Errand.Server.FailureReports — what Jira and GitHub are told of a task they triggered
  (`_process_task_event`, `_dispatch_jira` and `_dispatch_github`,
  errand/external_status_updater.py), over the board of tasks and the orphans a start finds.

  The updater goes by the status in the payload of a `task_updated`. A payload is made of the
  row as it is read after the commit, so of any row; the reference and the trigger are looked
  up when it is dispatched. Between the commit and the dispatch it may be lost. What the
  external systems answer changes nothing but the list of errors.

  Proved:
  - `dispatch_never_fails`: no payload of this server's is dispatched as a failure.
  - `reported_throughout_iff`: every task that stops without success is reported as failed,
    all along exactly the runs in which none stops whose trigger asks for comments.
  - `an_exhausted_task_is_not_reported`: one that does.
-/

namespace Errand.Server.FailureReports

open Errand.Lib Errand.Runner Errand.Server.Tasks Errand.Server.RunTask
open Errand.Server.Reviews (ExternalTaskRef WebhookTrigger Fields getOr format parseStructuredOutput)
open Errand.Server.SlackUpdates (Texts Publisher statusText)

/-! ## Callbacks -/

/-- The comments on a Jira issue. -/
inductive JiraNotice where
  | started (taskId : String)
  | completed (taskId : String) (output : Option String)
  | failed (taskId error : String)
  deriving DecidableEq

/-- The comments on a GitHub item. -/
inductive GithubNotice where
  | started (taskId : String)
  | completed (taskId : String) (summary : Option String)
  | aborted (taskId reason : String)
  | failed (taskId error : String)
  deriving DecidableEq

/-- A callback: where it goes, and what with. -/
inductive Action where
  | jiraComment (issue : String) (notice : JiraNotice)
  | assignToServiceAccount (issue : String)
  | transitionIssue (issue : String) (name : Json)
  | addLabel (issue : String) (label : Json)
  | githubComment (node : Json) (notice : GithubNotice)
  | updateItemStatus (project item field option : Json)
  | requestReview (owner repo number : Json)
  | createReviewTask

/-- A comment that says the task failed. -/
def Action.fails : Action → Bool
  | .jiraComment _ (.failed ..) => true
  | .githubComment _ (.failed ..) => true
  | _ => false

/-- What a dispatch did: the callbacks it made, the errors it noted, and whether it ended with
    an exception, which `_process_task_event` catches. -/
structure Dispatched where
  actions : List Action
  errors : List String
  raised : Bool

def nothing : Dispatched := ⟨[], [], false⟩

def failing : Dispatched := ⟨[], [], true⟩

/-- One part after another, unless the first raised. -/
def Dispatched.andThen (a b : Dispatched) : Dispatched :=
  if a.raised then a else ⟨a.actions ++ b.actions, a.errors ++ b.errors, b.raised⟩

def when (p : Prop) [Decidable p] (d : Dispatched) : Dispatched := if p then d else nothing

section Open

variable (python : Python) (answers : Action → Bool)

/-- A callback, and the error that is noted if it fails; none where what it needs is missing. -/
def attempt (action : Option Action) (error : String) : Dispatched :=
  match action with
  | none => ⟨[], [error], false⟩
  | some action => ⟨[action], if answers action then [] else [error], false⟩

def asks (key : String) (actions : Fields) : Prop := (getOr key .null actions).truthy = true

instance (key : String) (actions : Fields) : Decidable (asks key actions) := inferInstanceAs (Decidable (_ = true))

/-- `output or default`. -/
def outputOr (default : String) (output : Json) : String := if output.truthy then format python output else default

/-- The id of a task as it is written in comments. -/
def taskText (data : Fields) : String := format python (getOr "id" (.str "unknown") data)

/-! ## Jira -/

def dispatchJira (ref : ExternalTaskRef) (actions data : Fields) (status output : Json) : Dispatched :=
  let issue := ref.externalId
  let id := taskText python data
  match status with
  | .str "running" =>
    (when (asks "add_comment" actions)
      (attempt answers (some (.jiraComment issue (.started id))) "add_comment failed on running")).andThen
    (when (asks "assign_to" actions)
      (attempt answers (some (.assignToServiceAccount issue)) "assign_to failed on running"))
  | .str "completed" =>
    (when (asks "comment_output" actions ∨ asks "add_comment" actions)
      (attempt answers
        (some (.jiraComment issue (.completed id
          (if output.truthy ∧ asks "comment_output" actions then some (format python output) else none))))
        "add_comment failed on completed")).andThen
    ((when (asks "transition_on_complete" actions)
      (attempt answers (some (.transitionIssue issue (getOr "transition_on_complete" .null actions)))
        ("transition_on_complete '" ++ format python (getOr "transition_on_complete" .null actions) ++
          "' failed"))).andThen
    (when (asks "add_label" actions)
      (attempt answers (some (.addLabel issue (getOr "add_label" .null actions)))
        ("add_label '" ++ format python (getOr "add_label" .null actions) ++ "' failed"))))
  | .str "failed" =>
    when (asks "add_comment" actions)
      (attempt answers (some (.jiraComment issue (.failed id (outputOr python "No error details available" output))))
        "add_comment failed on failed")
  | _ => nothing

/-! ## GitHub -/

def githubComment (ref : ExternalTaskRef) (notice : GithubNotice) (error : String) : Dispatched :=
  attempt answers ((Json.lookup "content_node_id" ref.metadata).map fun node => .githubComment node notice) error

/-- The option of a column; none is an exception. -/
def columnOption (actions : Fields) (column : Json) : Option Json :=
  match getOr "column_options" (.obj []) actions with
  | .obj options =>
    match column with
    | .str name => some ((Json.lookup name options).getD .null)
    | .arr _ => none
    | .obj _ => none
    | _ => some .null
  | _ => none

/-- The move to the column under `key`. -/
def moveColumn (ref : ExternalTaskRef) (actions : Fields) (key : String) : Dispatched :=
  when (asks key actions) <|
    match columnOption actions (getOr key .null actions) with
    | none => failing
    | some option =>
      when (option.truthy = true) <|
        attempt answers
          (do
            let project ← Json.lookup "project_node_id" ref.metadata
            let item ← Json.lookup "item_node_id" ref.metadata
            let field ← Json.lookup "project_field_id" actions
            some (.updateItemStatus project item field option))
          (key ++ " '" ++ format python (getOr key .null actions) ++ "' failed")

/-- The trigger asks for comments on a completed task. -/
def asksForComments (actions : Fields) : Prop := asks "comment_output" actions ∨ asks "add_comment" actions

instance (actions : Fields) : Decidable (asksForComments actions) := inferInstanceAs (Decidable (_ ∨ _))

/-- A completed task with a result in its output that is not aborted. -/
def dispatchResult (ref : ExternalTaskRef) (actions structured : Fields) (id : String) : Dispatched :=
  (when (asksForComments actions)
    (githubComment answers ref
      (.completed id (some (format python (getOr "summary" (.str "Task completed.") structured))))
      "comment failed on completed")).andThen
  ((when (asks "copilot_review" actions ∧ asks "pr_number" structured)
    (attempt answers
      (do
        let owner ← Json.lookup "repo_owner" ref.metadata
        let repo ← Json.lookup "repo_name" ref.metadata
        some (.requestReview owner repo (getOr "pr_number" .null structured)))
      "copilot_review failed")).andThen
  ((when (asks "review_profile_id" actions ∧ asks "pr_url" structured ∧ asks "branch" structured)
    (attempt answers (some .createReviewTask) "review_profile_id failed")).andThen
  (moveColumn python answers ref actions "column_on_complete")))

def dispatchCompleted (ref : ExternalTaskRef) (actions : Fields) (id : String) (output : Json) : Dispatched :=
  match parseStructuredOutput python output with
  | none => failing
  | some structured =>
    let structured := structured.getD .null
    if !structured.truthy then
      (when (asksForComments actions)
        (githubComment answers ref (.completed id none) "comment failed on completed")).andThen
      (moveColumn python answers ref actions "column_on_complete")
    else
      match structured with
      | .obj fields =>
        match getOr "status" .null fields with
        | .str "aborted" =>
          when (asksForComments actions)
            (githubComment answers ref
              (.aborted id (format python (getOr "reason" (.str "No reason provided") fields)))
              "abort comment failed")
        | _ => dispatchResult python answers ref actions fields id
      -- no dict: its `get` raises, within the comment's `try` and then outside of it
      | _ => (when (asksForComments actions) ⟨[], ["comment failed on completed"], false⟩).andThen failing

def dispatchGithub (ref : ExternalTaskRef) (actions data : Fields) (status output : Json) : Dispatched :=
  let id := taskText python data
  match status with
  | .str "running" =>
    (moveColumn python answers ref actions "column_on_running").andThen
    (when (asks "add_comment" actions)
      (githubComment answers ref (.started id) "add_comment failed on running"))
  | .str "completed" => dispatchCompleted python answers ref actions id output
  | .str "failed" =>
    when (asks "add_comment" actions)
      (githubComment answers ref (.failed id (outputOr python "No error details available" output))
        "add_comment failed on failed")
  | _ => nothing

/-- `_process_task_event`, once the reference and the trigger are loaded; `client` says whether
    there are credentials for its source. -/
def processTaskEvent (ref : ExternalTaskRef) (trigger : WebhookTrigger) (client : Bool) (data : Fields) : Dispatched :=
  let status := getOr "status" (.str "") data
  let output := getOr "output" (.str "") data
  if !client then nothing
  else if ref.source = "jira" then dispatchJira python answers ref trigger.actions data status output
  else if ref.source = "github" then dispatchGithub python answers ref trigger.actions data status output
  else nothing

end Open

/-! ## The machine -/

/-- What the updater finds when a payload reaches it, if it does. -/
structure Delivery where
  row : Task
  ref : ExternalTaskRef
  trigger : WebhookTrigger
  client : Bool
  answers : Action → Bool
  /-- The payload is published and received. -/
  received : Bool

/-- A task that has stopped without success. -/
structure Stop where
  id : Nat
  publisher : Publisher
  /-- It comes from a system whose trigger asks for comments. -/
  asked : Bool
  actions : List Action

structure St where
  board : Lifecycle.St
  stops : List Stop

inductive Cause where
  | board (e : Lifecycle.Ev)
  /-- A start commits what it made of an orphaned task. -/
  | orphan (id : Nat) (loaded : Task)
  /-- Any other write. -/
  | other (db : Db)

/-- A step, and what comes of its event, where it is about a task from outside. -/
structure Event where
  cause : Cause
  delivery : Option Delivery

section Machine

variable (texts : Texts) (python : Python)
variable (extractJson : String → Option String) (validate : String → Option TaskRunnerOutput)

/-- Who stops a task without success, and which: retries that are exhausted, whatever ended
    the runs, a git failure at its cap, and what the two sweeps give up. -/
def stopped (s : Lifecycle.St) : Cause → Option (Publisher × Nat)
  | .board (.run r a) =>
    (s.runs r).bind fun x =>
      match commitOf s.now s.db x.task x.pc a with
      | some .escalate => some (.escalation, x.task.id)
      | some .gitReview => some (.gitReview, x.task.id)
      | _ => none
  | .board (.zombieCommit z) => if z.target = .review then some (.zombie, z.id) else none
  | .board _ => none
  | .orphan id loaded => if loaded.retryCount ≥ maxRetries then some (.orphan, id) else none
  | .other _ => none

def asked : Option Delivery → Bool
  | none => false
  | some d => (d.ref.source = "jira" ∨ d.ref.source = "github") ∧ asksForComments d.trigger.actions

/-- The callbacks of an event. -/
def callbacks (publisher : Publisher) (id : Nat) : Option Delivery → List Action
  | none => []
  | some d =>
    if d.received then
      (processTaskEvent python d.answers d.ref d.trigger d.client (publisher.payload texts id d.row)).actions
    else []

def moved (s : Lifecycle.St) : Cause → Option Lifecycle.St
  | .board e => Lifecycle.step extractJson validate s e
  | .orphan id loaded => some { s with db := Orphans.recoverOrphanedTask s.now s.db id loaded }
  | .other db => some { s with db := db }

def step (s : St) (e : Event) : Option St :=
  (moved extractJson validate s.board e.cause).map fun board =>
    { board := board
      stops := s.stops ++ ((stopped s.board e.cause).map fun stop =>
        ⟨stop.2, stop.1, asked e.delivery, callbacks texts python stop.1 stop.2 e.delivery⟩).toList }

def machine : Machine St Event :=
  ⟨fun s => ∃ now db, s = ⟨Lifecycle.start now db, []⟩, step texts python extractJson validate⟩

/-- Every task that stopped without success, and whose trigger asks for comments, was reported
    as failed. -/
def Reported (s : St) : Prop := ∀ stop ∈ s.stops, stop.asked = true → ∃ action ∈ stop.actions, action.fails = true

/-- The step stops no such task. -/
def Spared (s : St) (e : Event) : Prop := (stopped s.board e.cause).isSome = true → asked e.delivery = false

end Machine

/-! ## No status is a failure -/

/-- No callback says that the task failed. -/
def Clean (d : Dispatched) : Prop := ∀ action ∈ d.actions, action.fails = false

section Dispatches

variable {python : Python} {answers : Action → Bool}

theorem clean_nothing : Clean nothing := nofun

theorem clean_failing : Clean failing := nofun

theorem clean_andThen {a b : Dispatched} (ha : Clean a) (hb : Clean b) : Clean (a.andThen b) := by
  unfold Dispatched.andThen
  split
  · exact ha
  · intro action haction
    rcases List.mem_append.mp haction with h | h
    · exact ha action h
    · exact hb action h

theorem clean_when {p : Prop} [Decidable p] {d : Dispatched} (h : Clean d) : Clean (when p d) := by
  unfold when
  split
  · exact h
  · exact clean_nothing

theorem clean_attempt {action : Option Action} {error : String} (h : ∀ a, action = some a → a.fails = false) :
    Clean (attempt answers action error) := by
  unfold attempt
  split
  · exact nofun
  · rename_i action
    intro a ha
    rw [List.mem_singleton.mp ha]
    exact h action rfl

/-- A callback that is no comment. -/
theorem clean_call {action : Action} {error : String} (h : action.fails = false) :
    Clean (attempt answers (some action) error) :=
  clean_attempt fun a ha => by
    cases ha
    exact h

theorem clean_githubComment {ref : ExternalTaskRef} {notice : GithubNotice} {error : String}
    (h : ∀ node, (Action.githubComment node notice).fails = false) : Clean (githubComment answers ref notice error) := by
  refine clean_attempt fun a ha => ?_
  obtain ⟨node, -, rfl⟩ := Option.map_eq_some_iff.mp ha
  exact h node

theorem clean_moveColumn (ref : ExternalTaskRef) (actions : Fields) (key : String) :
    Clean (moveColumn python answers ref actions key) := by
  refine clean_when ?_
  split
  · exact clean_failing
  · refine clean_when (clean_attempt fun a ha => ?_)
    obtain ⟨project, -, ha⟩ := Option.bind_eq_some_iff.mp ha
    obtain ⟨item, -, ha⟩ := Option.bind_eq_some_iff.mp ha
    obtain ⟨field, -, ha⟩ := Option.bind_eq_some_iff.mp ha
    cases ha
    rfl

theorem clean_result (ref : ExternalTaskRef) (actions structured : Fields) (id : String) :
    Clean (dispatchResult python answers ref actions structured id) := by
  refine clean_andThen (clean_when (clean_githubComment fun _ => rfl)) ?_
  refine clean_andThen (clean_when (clean_attempt fun a ha => ?_)) ?_
  · obtain ⟨owner, -, ha⟩ := Option.bind_eq_some_iff.mp ha
    obtain ⟨repo, -, ha⟩ := Option.bind_eq_some_iff.mp ha
    cases ha
    rfl
  · exact clean_andThen (clean_when (clean_call rfl)) (clean_moveColumn ref actions _)

theorem clean_completed (ref : ExternalTaskRef) (actions : Fields) (id : String) (output : Json) :
    Clean (dispatchCompleted python answers ref actions id output) := by
  unfold dispatchCompleted
  split
  · exact clean_failing
  · simp only
    split
    · exact clean_andThen (clean_when (clean_githubComment fun _ => rfl)) (clean_moveColumn ref actions _)
    · split
      · split
        · exact clean_when (clean_githubComment fun _ => rfl)
        · exact clean_result ref actions _ id
      · exact clean_andThen (clean_when nofun) clean_failing

theorem clean_jira (ref : ExternalTaskRef) (actions data : Fields) (status : Status) (output : Json) :
    Clean (dispatchJira python answers ref actions data (.str (statusText status)) output) := by
  cases status with
  | running => exact clean_andThen (clean_when (clean_call rfl)) (clean_when (clean_call rfl))
  | completed =>
    exact clean_andThen (clean_when (clean_call rfl))
      (clean_andThen (clean_when (clean_call rfl)) (clean_when (clean_call rfl)))
  | _ => exact clean_nothing

theorem clean_github (ref : ExternalTaskRef) (actions data : Fields) (status : Status) (output : Json) :
    Clean (dispatchGithub python answers ref actions data (.str (statusText status)) output) := by
  cases status with
  | running => exact clean_andThen (clean_moveColumn ref actions _) (clean_when (clean_githubComment fun _ => rfl))
  | completed => exact clean_completed ref actions _ output
  | _ => exact clean_nothing

theorem payload_status (texts : Texts) (publisher : Publisher) (id : Nat) (row : Task) :
    getOr "status" (.str "") (publisher.payload texts id row) = .str (statusText row.status) := by
  cases publisher <;> rfl

/-- Whoever publishes it, whatever the row, and whatever the trigger asks for: no payload is
    dispatched as a failure. -/
theorem dispatch_never_fails (texts : Texts) (publisher : Publisher) (id : Nat) (row : Task) (ref : ExternalTaskRef)
    (trigger : WebhookTrigger) (client : Bool) :
    Clean (processTaskEvent python answers ref trigger client (publisher.payload texts id row)) := by
  simp only [processTaskEvent, payload_status]
  split
  · exact clean_nothing
  · split
    · exact clean_jira ref _ _ row.status _
    · split
      · exact clean_github ref _ _ row.status _
      · exact clean_nothing

end Dispatches

/-! ## Runs -/

section Runs

variable {texts : Texts} {python : Python}
variable {extractJson : String → Option String} {validate : String → Option TaskRunnerOutput}

theorem callbacks_clean (publisher : Publisher) (id : Nat) (delivery : Option Delivery) :
    ∀ action ∈ callbacks texts python publisher id delivery, action.fails = false := by
  cases delivery with
  | none => exact nofun
  | some d =>
    rw [callbacks]
    split
    · exact dispatch_never_fails texts publisher id d.row d.ref d.trigger d.client
    · exact nofun

/-- A step keeps every stop reported exactly if it stops no task that should be. -/
theorem step_reported {s s' : St} {e : Event} (hst : step texts python extractJson validate s e = some s')
    (hr : Reported s) : Reported s' ↔ Spared s e := by
  obtain ⟨board, -, rfl⟩ := Option.map_eq_some_iff.mp hst
  cases hs : stopped s.board e.cause with
  | none =>
    refine iff_of_true (fun stop hstop => ?_) fun h => ?_
    · simp only [Option.map_none, Option.toList_none, List.append_nil] at hstop
      exact hr stop hstop
    · rw [hs] at h
      cases h
  | some stop =>
    simp only [Reported, Spared, hs, Option.map_some, Option.toList_some, List.forall_mem_append,
      List.forall_mem_singleton, Option.isSome_some, forall_const]
    refine (and_iff_right hr).trans ?_
    constructor
    · intro h
      cases ha : asked e.delivery with
      | false => rfl
      | true =>
        obtain ⟨action, haction, hfails⟩ := h ha
        rw [callbacks_clean _ _ _ action haction] at hfails
        cases hfails
    · intro h ha
      rw [h] at ha
      cases ha

/-- Failures are reported in exactly the runs in which there is none to report. -/
theorem reported_throughout_iff (now : Timestamp) (db : Db) (events : List Event) :
    (∀ n s, (machine texts python extractJson validate).exec ⟨Lifecycle.start now db, []⟩ (events.take n) = some s →
        Reported s) ↔
      ∀ p ∈ (machine texts python extractJson validate).trace ⟨Lifecycle.start now db, []⟩ events, Spared p.1 p.2 := by
  have h : (∀ n s, (machine texts python extractJson validate).exec ⟨Lifecycle.start now db, []⟩ (events.take n) =
        some s → Reported s) ↔
      Reported ⟨Lifecycle.start now db, []⟩ ∧
        ∀ p ∈ (machine texts python extractJson validate).trace ⟨Lifecycle.start now db, []⟩ events, Spared p.1 p.2 :=
    Machine.throughout_iff (M := machine texts python extractJson validate) (A := fun _ => True) (C := Spared)
      (I := fun _ => True) (P := Reported) (fun _ _ _ _ _ hst => ⟨trivial, step_reported hst⟩) trivial
      fun _ _ => trivial
  rw [h]
  exact and_iff_right nofun

end Runs

/-! ## A task that gives up -/

/-- An issue of a trigger that asks for comments. -/
def delivered : Delivery where
  row := SlackUpdates.someTask .review
  ref := ⟨0, some 1, "jira", "A-1", "https://example.atlassian.net/browse/A-1", []⟩
  trigger := ⟨1, [("add_comment", .bool true)]⟩
  client := true
  answers := fun _ => true
  received := true

/-- Its fifth run ends with output that no result is found in. -/
def exhausting : List Event :=
  [⟨.board (.dispatch 0), none⟩, ⟨.board (.run 0 .entered), none⟩, ⟨.board (.run 0 (.result "boom" "")), none⟩,
    ⟨.board (.run 0 (.maxAttempts (.value 5))), none⟩, ⟨.board (.run 0 .ok), some delivered⟩]

/-- The task goes to review, the event is received, and nothing is posted. -/
theorem an_exhausted_task_is_not_reported :
    ∃ s, (machine SlackUpdates.someTexts Reviews.somePython (fun _ => none) (fun _ => none)).exec
        ⟨Lifecycle.start 0 (dbOf { repeatingTask "7 days" with status := .pending, retryCount := 4 }), []⟩ exhausting =
          some s ∧
      s.board.db.status 0 = some .review ∧ s.stops.map (fun stop => (stop.asked, stop.actions.length)) = [(true, 0)] ∧
      ¬ Reported s := by
  refine ⟨_, rfl, rfl, rfl, fun h => ?_⟩
  obtain ⟨action, haction, -⟩ := h _ (List.mem_singleton.mpr rfl) rfl
  cases haction

end Errand.Server.FailureReports

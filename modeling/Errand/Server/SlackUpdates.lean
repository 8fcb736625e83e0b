import Errand.Lib.Json
import Errand.Lib.Machine
import Errand.Server.Tasks
import Mathlib.Data.List.Forall2

/-
  Errand.Server.SlackUpdates — the message of a task in Slack and the `task_updated` events
  it follows (errand/platforms/slack/status_updater.py, blocks.py).

  The events come from ten places, which write the task down in four ways: `_task_to_dict` of
  task_manager.py, scheduler.py and zombie_cleanup.py, and `TaskResponse` (task_creation.py).
  A payload arrives as it was sent. The task is any row at each event; `str` of a value that is
  no text, the texts of dates and of ids are open, and what Slack answers is in the event.
  `due` is the reference as it ought to be: gone only after a call that failed.

  Proved:
  - `follows_iff`: every event has led to a call that shows its status, and the reference is
    as it ought to be, all along exactly the runs in which no event of the scheduler, of the
    zombie sweep or of the recovery of orphaned Jobs meets the reference.
  - `promotion_disconnects`: one in which it does.
-/

namespace Errand.Server.SlackUpdates

open Errand.Lib Errand.Server.Tasks

abbrev Fields := List (String × Json)

def statusText : Status → String
  | .scheduled => "scheduled"
  | .pending => "pending"
  | .running => "running"
  | .review => "review"
  | .completed => "completed"
  | .deleted => "deleted"
  | .archived => "archived"

def textJson : Option String → Json
  | none => .null
  | some s => .str s

/-- The open texts: `str(task.id)` and what `uuid.UUID` reads of it, `isoformat()` and the
    dates of a `model_dump`, and `str` of a value that is no text. -/
structure Texts where
  uuidText : Nat → String
  uuid : String → Option Nat
  isoformat : Timestamp → String
  dumped : Timestamp → String
  str : Json → String

section Open

variable (texts : Texts)

/-! ## The payloads -/

def sortedTags (task : Task) : Json := .arr ((task.tags.mergeSort fun a b => decide (a ≤ b)).map .str)

/-- What all of them write down, up to the output. -/
def leading (date : Timestamp → String) (id : Nat) (task : Task) : Fields :=
  [("id", .str (texts.uuidText id)), ("title", .str task.title), ("description", textJson task.description),
    ("status", .str (statusText task.status)), ("position", .int task.position), ("category", textJson task.category),
    ("execute_at", textJson (task.executeAt.map date)), ("repeat_interval", textJson task.repeatInterval),
    ("repeat_until", textJson (task.repeatUntil.map date)), ("output", textJson task.output)]

/-- And after it. -/
def trailing (date : Timestamp → String) (profileName : Option String) (task : Task) : Fields :=
  [("retry_count", .int task.retryCount), ("heartbeat_at", textJson (task.heartbeatAt.map date)),
    ("profile_id", textJson (task.profileId.map texts.uuidText)), ("profile_name", textJson profileName),
    ("tags", sortedTags task), ("created_at", .str (date task.createdAt)), ("updated_at", .str (date task.updatedAt))]

/-- A payload with all the columns. -/
def full (date : Timestamp → String) (profileName : Option String) (id : Nat) (task : Task) : Fields :=
  leading texts date id task ++
    [("runner_logs", textJson task.runnerLogs),
      ("questions", match task.questions with
        | none => .null
        | some questions => .arr (questions.map .str))] ++
    trailing texts date profileName task ++
    [("created_by", textJson task.createdBy), ("updated_by", textJson task.updatedBy), ("is_eval", .bool task.isEval),
      ("classification", .null)]

/-- A payload as the sweeps write it. -/
def short (id : Nat) (task : Task) : Fields :=
  leading texts texts.isoformat id task ++ trailing texts texts.isoformat none task

/-- `_task_to_dict` of task_manager.py. -/
def taskManagerToDict : Nat → Task → Fields := full texts texts.isoformat none

/-- `TaskResponse.from_task(...).model_dump(mode="json")`. -/
def taskResponse (profileName : Option String) : Nat → Task → Fields := full texts texts.dumped profileName

/-- `_task_to_dict` of scheduler.py. -/
def schedulerToDict : Nat → Task → Fields := short texts

/-- `_task_to_dict` of zombie_cleanup.py. -/
def zombieToDict : Nat → Task → Fields := short texts

/-- Who publishes `task_updated`. -/
inductive Publisher where
  | dispatch
  | completion
  | gitReview
  | retry
  | escalation
  | edit (profileName : Option String)
  | promotion
  | archiving
  | zombie
  | orphan
  deriving DecidableEq, Repr

def Publisher.payload : Publisher → Nat → Task → Fields
  | .dispatch => taskManagerToDict texts
  | .completion => taskManagerToDict texts
  | .gitReview => taskManagerToDict texts
  | .retry => taskManagerToDict texts
  | .escalation => taskManagerToDict texts
  | .edit profileName => taskResponse texts profileName
  | .promotion => schedulerToDict texts
  | .archiving => schedulerToDict texts
  | .zombie => zombieToDict texts
  | .orphan => schedulerToDict texts

/-! ## The blocks (blocks.py) -/

def statusEmoji : String → String
  | "new" => ":white_circle:"
  | "scheduled" => ":clock3:"
  | "pending" => ":hourglass_flowing_sand:"
  | "running" => ":gear:"
  | "review" => ":eyes:"
  | "completed" => ":white_check_mark:"
  | "archived" => ":file_cabinet:"
  | "deleted" => ":wastebasket:"
  | _ => ":question:"

def format : Json → String
  | .str s => s
  | value => texts.str value

/-- `value or default`, in a text. -/
def formatOr (default : String) (value : Json) : String := if value.truthy then format texts value else default

/-- `status_emoji(status)`; looking an unhashable value up raises. -/
def emojiOf : Json → Option String
  | .str s => some (statusEmoji s)
  | .arr _ => none
  | .obj _ => none
  | _ => some ":question:"

def plainText (text : String) : Json := .obj [("type", .str "plain_text"), ("text", .str text)]

def mrkdwn (text : String) : Json := .obj [("type", .str "mrkdwn"), ("text", .str text)]

def button (text actionId value : String) : Json :=
  .obj [("type", .str "button"), ("text", plainText text), ("action_id", .str actionId), ("value", .str value)]

/-- `_task_action_buttons`. -/
def taskActionButtons (id : String) : Json :=
  .obj [("type", .str "actions"),
    ("elements", .arr [button "View Status" "task_status" id, button "View Output" "task_output" id])]

def sectionBlock (fields : List Json) : Json := .obj [("type", .str "section"), ("fields", .arr fields)]

def statusField (emoji status : String) : Json := mrkdwn ("*Status:*\n" ++ emoji ++ " " ++ status)

/-- `task_updated_blocks`; a field that is missing is an AttributeError. -/
def taskUpdatedBlocks (task : Fields) : Option (List Json) := do
  let title ← Json.lookup "title" task
  let status ← Json.lookup "status" task
  let emoji ← emojiOf status
  let category ← Json.lookup "category" task
  let id ← Json.lookup "id" task
  let createdBy ← Json.lookup "created_by" task
  some
    [.obj [("type", .str "header"), ("text", plainText "Task Created")],
      sectionBlock
        [mrkdwn ("*Title:*\n" ++ format texts title),
          statusField emoji (format texts status),
          mrkdwn ("*Category:*\n" ++ formatOr texts "N/A" category),
          mrkdwn ("*ID:*\n\x60" ++ String.ofList ((format texts id).toList.take 8) ++ "\x60")],
      .obj [("type", .str "context"),
        ("elements", .arr [mrkdwn ("Created by " ++ formatOr texts "unknown" createdBy)])],
      taskActionButtons (format texts id)]

/-- The blocks have a field that shows the status. -/
def Shows (blocks : List Json) (status : String) : Prop :=
  ∃ fields, sectionBlock fields ∈ blocks ∧ statusField (statusEmoji status) status ∈ fields

/-! ## The subscriber (status_updater.py) -/

structure MessageRef where
  taskId : Nat
  channelId : String
  messageTs : String
  deriving DecidableEq, Repr

/-- A `chat.update`. -/
structure Call where
  token : String
  channel : String
  ts : String
  blocks : List Json

/-- How `update_message` ends; a refusal in the reply is only logged. -/
inductive Reply where
  | ok
  | refused
  | raised
  deriving DecidableEq, Repr

/-- `_process_task_event` on the task's reference: what is left of it, and the call made. -/
def processTaskEvent (ref : Option MessageRef) (task : Fields) (token : String) (reply : Reply) :
    Option MessageRef × Option Call :=
  match Json.lookup "id" task with
  | some (.str taskId) =>
    if taskId.isEmpty then (ref, none)
    else
      match texts.uuid taskId, ref with
      | some id, some ref =>
        if ref.taskId = id then
          match taskUpdatedBlocks texts task with
          | none => (none, none)
          | some blocks =>
            (if reply = .raised then none else some ref, some ⟨token, ref.channelId, ref.messageTs, blocks⟩)
        else (some ref, none)
      | _, ref => (ref, none)
  | _ => (ref, none)

/-! ## Runs -/

structure Event where
  publisher : Publisher
  task : Task
  /-- `bot_token` of the stored credentials; without one the event is left alone. -/
  token : String
  reply : Reply

structure St where
  ref : Option MessageRef
  calls : List Call
  /-- The reference, if only a failed call takes it away. -/
  due : Option MessageRef
  /-- What there was to show, with the reference it was due to. -/
  asked : List (MessageRef × String)

def start (ref : MessageRef) : St := ⟨some ref, [], some ref, []⟩

def machine (taskId : Nat) : Machine St Event where
  init s := ∃ channelId messageTs, s = start ⟨taskId, channelId, messageTs⟩
  step s e :=
    if e.token.isEmpty then some s
    else
      let (ref, call) := processTaskEvent texts s.ref (e.publisher.payload texts taskId e.task) e.token e.reply
      some
        { ref := ref
          calls := s.calls ++ call.toList
          due := if e.reply = .raised then none else s.due
          asked := s.asked ++ s.due.toList.map fun ref => (ref, statusText e.task.status) }

/-- A call to the message, with blocks that show the status. -/
def Answers (call : Call) (asked : MessageRef × String) : Prop :=
  call.channel = asked.1.channelId ∧ call.ts = asked.1.messageTs ∧ Shows call.blocks asked.2

/-- Every event has led to its call, and the reference is as it ought to be. -/
structure Follows (s : St) : Prop where
  ref : s.ref = s.due
  calls : List.Forall₂ Answers s.calls s.asked

/-- The publishers whose payload has no `created_by`. -/
def Publisher.sweeps : Publisher → Bool
  | .promotion | .archiving | .zombie | .orphan => true
  | _ => false

/-- No event of a sweep meets the reference. -/
def Spared (s : St) (e : Event) : Prop := s.ref.isSome = true → e.token.isEmpty = false → e.publisher.sweeps = false

end Open

section Open

variable {texts : Texts}

/-- A payload with all the columns shows its status. -/
theorem full_blocks (date : Timestamp → String) (profileName : Option String) (id : Nat) (task : Task) :
    ∃ blocks, taskUpdatedBlocks texts (full texts date profileName id task) = some blocks ∧
      Shows blocks (statusText task.status) :=
  ⟨_, rfl, _, List.mem_cons_of_mem _ (List.mem_cons_self ..), List.mem_cons_of_mem _ (List.mem_cons_self ..)⟩

/-- A payload without `created_by` does not get that far. -/
theorem short_blocks (id : Nat) (task : Task) : taskUpdatedBlocks texts (short texts id task) = none := rfl

theorem payload_id (publisher : Publisher) (id : Nat) (task : Task) :
    Json.lookup "id" (publisher.payload texts id task) = some (.str (texts.uuidText id)) := by
  cases publisher <;> rfl

theorem payload_blocks (publisher : Publisher) (id : Nat) (task : Task) :
    publisher.sweeps = true ∧ taskUpdatedBlocks texts (publisher.payload texts id task) = none ∨
      publisher.sweeps = false ∧ ∃ blocks, taskUpdatedBlocks texts (publisher.payload texts id task) = some blocks ∧
        Shows blocks (statusText task.status) := by
  cases publisher with
  | dispatch => exact .inr ⟨rfl, full_blocks ..⟩
  | completion => exact .inr ⟨rfl, full_blocks ..⟩
  | gitReview => exact .inr ⟨rfl, full_blocks ..⟩
  | retry => exact .inr ⟨rfl, full_blocks ..⟩
  | escalation => exact .inr ⟨rfl, full_blocks ..⟩
  | edit profileName => exact .inr ⟨rfl, full_blocks ..⟩
  | promotion => exact .inl ⟨rfl, short_blocks id task⟩
  | archiving => exact .inl ⟨rfl, short_blocks id task⟩
  | zombie => exact .inl ⟨rfl, short_blocks id task⟩
  | orphan => exact .inl ⟨rfl, short_blocks id task⟩

/-- The event of a task finds the task's own reference. -/
theorem process_own {taskId : Nat} (hid : texts.uuid (texts.uuidText taskId) = some taskId)
    (hne : texts.uuidText taskId ≠ "") {ref : MessageRef} (href : ref.taskId = taskId) (publisher : Publisher)
    (task : Task) (token : String) (reply : Reply) :
    processTaskEvent texts (some ref) (publisher.payload texts taskId task) token reply =
      match taskUpdatedBlocks texts (publisher.payload texts taskId task) with
      | none => (none, none)
      | some blocks =>
        (if reply = .raised then none else some ref, some ⟨token, ref.channelId, ref.messageTs, blocks⟩) := by
  have hempty : (texts.uuidText taskId).isEmpty = false := by simpa using hne
  simp only [processTaskEvent, payload_id, hempty, Bool.false_eq_true, if_false, hid, href, if_true]

theorem process_gone (task : Fields) (token : String) (reply : Reply) :
    processTaskEvent texts none task token reply = (none, none) := by
  unfold processTaskEvent
  split
  · split
    · rfl
    · split
      · rename_i h
        cases h
      · rfl
  · rfl

/-- The reference is the task's. -/
def Own (taskId : Nat) (s : St) : Prop := ∀ ref, s.ref = some ref → ref.taskId = taskId

/-! ## A step -/

/-- What an event comes to, from a state in which everything is as it ought to be. -/
inductive Comes (taskId : Nat) (s : St) (e : Event) : St → Prop
  | untouched (htoken : e.token.isEmpty = true) : Comes taskId s e s
  | gone (href : s.ref = none) : Comes taskId s e { s with due := if e.reply = .raised then none else s.due }
  | shown (ref : MessageRef) (blocks : List Json) (htoken : e.token.isEmpty = false) (href : s.ref = some ref)
      (hsweep : e.publisher.sweeps = false) (hshows : Shows blocks (statusText e.task.status)) :
      Comes taskId s e
        { ref := if e.reply = .raised then none else some ref
          calls := s.calls ++ [⟨e.token, ref.channelId, ref.messageTs, blocks⟩]
          due := if e.reply = .raised then none else s.due
          asked := s.asked ++ [(ref, statusText e.task.status)] }
  | dropped (ref : MessageRef) (htoken : e.token.isEmpty = false) (href : s.ref = some ref)
      (hsweep : e.publisher.sweeps = true) :
      Comes taskId s e
        { ref := none
          calls := s.calls
          due := if e.reply = .raised then none else s.due
          asked := s.asked ++ [(ref, statusText e.task.status)] }

theorem step_comes {taskId : Nat} (hid : texts.uuid (texts.uuidText taskId) = some taskId)
    (hne : texts.uuidText taskId ≠ "") {s s' : St} {e : Event} (hown : Own taskId s) (hdue : s.ref = s.due)
    (h : (machine texts taskId).step s e = some s') : Comes taskId s e s' := by
  simp only [machine] at h
  by_cases htoken : e.token.isEmpty = true
  · rw [if_pos htoken] at h
    cases h
    exact .untouched htoken
  · rw [if_neg htoken] at h
    have htoken : e.token.isEmpty = false := by simpa using htoken
    cases href : s.ref with
    | none =>
      rw [href, process_gone] at h
      rw [href] at hdue
      cases h
      have hgone := @Comes.gone taskId s e href
      rw [← hdue] at hgone ⊢
      simpa [href] using hgone
    | some ref =>
      rw [href] at hdue
      rw [href, process_own hid hne (hown ref href)] at h
      rcases payload_blocks e.publisher taskId e.task with ⟨hsweep, hblocks⟩ | ⟨hsweep, blocks, hblocks, hshows⟩
      · rw [hblocks] at h
        cases h
        have := @Comes.dropped taskId s e ref htoken href hsweep
        rw [← hdue] at this ⊢
        simpa using this
      · rw [hblocks] at h
        cases h
        have := @Comes.shown taskId s e ref blocks htoken href hsweep hshows
        rw [← hdue] at this ⊢
        simpa using this

/-- An event leaves the reference alone or deletes it. -/
theorem process_ref {ref ref' : MessageRef} {task : Fields} {token : String} {reply : Reply}
    (h : (processTaskEvent texts (some ref) task token reply).1 = some ref') : ref' = ref := by
  unfold processTaskEvent at h
  split at h
  · split at h
    · exact (Option.some.inj h).symm
    · split at h
      · rename_i hsome
        cases hsome
        split at h
        · split at h
          · cases h
          · dsimp only at h
            split at h
            · cases h
            · exact (Option.some.inj h).symm
        · exact (Option.some.inj h).symm
      · exact (Option.some.inj h).symm
  · exact (Option.some.inj h).symm

theorem step_own {taskId : Nat} {s s' : St} {e : Event} (hown : Own taskId s)
    (h : (machine texts taskId).step s e = some s') : Own taskId s' := by
  simp only [machine] at h
  split at h
  · cases h
    exact hown
  · cases h
    intro ref' href'
    cases href : s.ref with
    | none =>
      rw [href, process_gone] at href'
      cases href'
    | some ref =>
      rw [href] at href'
      obtain rfl := process_ref href'
      exact hown _ href

theorem step_follows {taskId : Nat} (hid : texts.uuid (texts.uuidText taskId) = some taskId)
    (hne : texts.uuidText taskId ≠ "") {s s' : St} {e : Event} (hown : Own taskId s)
    (h : (machine texts taskId).step s e = some s') (hp : Follows s) : Follows s' ↔ Spared s e := by
  cases step_comes hid hne hown hp.ref h with
  | untouched htoken =>
    refine iff_of_true hp fun _ htoken' => ?_
    rw [htoken] at htoken'
    cases htoken'
  | gone href =>
    refine iff_of_true ⟨?_, hp.calls⟩ fun hsome => ?_
    · show s.ref = if e.reply = .raised then none else s.due
      rw [← hp.ref, href]
      simp
    · rw [href] at hsome
      cases hsome
  | shown ref blocks htoken href hsweep hshows =>
    refine iff_of_true ⟨?_, ?_⟩ fun _ _ => hsweep
    · show (if e.reply = .raised then none else some ref) = if e.reply = .raised then none else s.due
      rw [← hp.ref, href]
    · exact List.rel_append hp.calls (.cons ⟨rfl, rfl, hshows⟩ .nil)
  | dropped ref htoken href hsweep =>
    refine iff_of_false ?_ ?_
    · intro hp'
      have hlen := hp'.calls.length_eq
      have hlen' := hp.calls.length_eq
      simp only [List.length_append, List.length_singleton] at hlen
      omega
    · intro hspared
      have := hspared (by rw [href]; rfl) htoken
      rw [hsweep] at this
      cases this

/-- The message follows its task all along exactly the runs in which no event of a sweep meets
    its reference. -/
theorem follows_iff {ref : MessageRef} (hid : texts.uuid (texts.uuidText ref.taskId) = some ref.taskId)
    (hne : texts.uuidText ref.taskId ≠ "") (es : List Event) :
    (∀ n s, (machine texts ref.taskId).exec (start ref) (es.take n) = some s → Follows s) ↔
      ∀ p ∈ (machine texts ref.taskId).trace (start ref) es, Spared p.1 p.2 := by
  have hown : Own ref.taskId (start ref) := by
    intro ref' href
    cases href
    rfl
  have hstep : ∀ s e s', Own ref.taskId s → True → (machine texts ref.taskId).step s e = some s' →
      Own ref.taskId s' ∧ (Follows s → (Follows s' ↔ Spared s e)) := by
    intro s e s' hown _ hst
    exact ⟨step_own hown hst, step_follows hid hne hown hst⟩
  rw [Machine.throughout_iff hstep hown fun _ _ => trivial]
  exact and_iff_right ⟨rfl, .nil⟩

end Open

/-! ## A promotion -/

/-- The texts of one id; no value but texts is written out. -/
def someTexts : Texts where
  uuidText _ := "0f8fad5b-d9cb-469f-a165-70867728950e"
  uuid text := if text = "0f8fad5b-d9cb-469f-a165-70867728950e" then some 20684434521572431564404614332563363086 else none
  isoformat _ := "2026-01-05T09:00:00+00:00"
  dumped _ := "2026-01-05T09:00:00Z"
  str _ := "None"

def someRef : MessageRef := ⟨20684434521572431564404614332563363086, "C012AB3CD", "1767603600.000100"⟩

def someTask (status : Status) : Task :=
  ⟨"Tidy up", none, status, 0, 0, some "scheduled", some 0, none, none, 1, none, none, none, 0, none, none,
    some "ada@example.com", none, false, []⟩

/-- The scheduler makes the task pending, and its message hears of nothing again. -/
theorem promotion_disconnects :
    ∃ s, (machine someTexts someRef.taskId).exec (start someRef)
        [⟨.promotion, someTask .pending, "xoxb-1", .ok⟩, ⟨.dispatch, someTask .running, "xoxb-1", .ok⟩] = some s ∧
      s.ref = none ∧ s.calls.length = 0 ∧ s.due = some someRef ∧
      s.asked = [(someRef, "pending"), (someRef, "running")] :=
  ⟨_, rfl, rfl, rfl, rfl, rfl⟩

theorem dispatch_shown :
    ((machine someTexts someRef.taskId).exec (start someRef)
        [⟨.dispatch, someTask .running, "xoxb-1", .ok⟩]).isSome = true ∧
      ∀ n s, (machine someTexts someRef.taskId).exec (start someRef)
        ([⟨.dispatch, someTask .running, "xoxb-1", .ok⟩].take n) = some s → Follows s := by
  refine ⟨rfl, ?_⟩
  refine (follows_iff (by decide) (by decide) _).mpr ?_
  intro p hp
  have htrace : (machine someTexts someRef.taskId).trace (start someRef)
      [⟨.dispatch, someTask .running, "xoxb-1", .ok⟩] =
        [(start someRef, ⟨.dispatch, someTask .running, "xoxb-1", .ok⟩)] := rfl
  rw [htrace, List.mem_singleton] at hp
  subst hp
  exact fun _ _ => rfl

end Errand.Server.SlackUpdates

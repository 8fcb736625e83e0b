import Errand.Lib.Json
import Errand.Runner.Python
import Errand.Server.Intervals
import Errand.Server.Tasks
import Mathlib.Data.List.Basic

/-
  Errand.Server.TaskCreation — the ways a task comes onto the board: `POST /api/tasks`
  (`create_task`, errand/main.py), a confirmed draft (`confirm`, errand/clarify.py), both by
  way of `create_task_from_fields` (errand/task_creation.py), and the MCP tools `new_task`
  and `schedule_task` (errand/mcp_server.py).

  The classifier's answer is any text (`generate_title`, errand/llm.py); its dates and its
  interval are whatever values it wrote. `none` is a request that creates nothing: one that
  is refused, or whose row the database does not take. `datetime.fromisoformat` and
  `json.loads` are open.

  Proved:
  - `createTask_row`, `confirm_row`, `newTask_row`, `scheduleTask_row`: each inserts one row,
    and exactly when that is not a scheduled one without a time.
-/

namespace Errand.Server.TaskCreation

open Errand.Lib Errand.Runner Errand.Server.Tasks

/-- `VALID_CATEGORIES`. -/
inductive Category where
  | immediate
  | scheduled
  | repeating
  deriving DecidableEq, Repr

def Category.text : Category → String
  | .immediate => "immediate"
  | .scheduled => "scheduled"
  | .repeating => "repeating"

def validCategory : String → Option Category
  | "immediate" => some .immediate
  | "scheduled" => some .scheduled
  | "repeating" => some .repeating
  | _ => none

/-- The category to go on with; looking an unhashable value up raises. -/
def categoryOf : Option Json → Option Category
  | none => some .immediate
  | some (.str s) => some ((validCategory s).getD .immediate)
  | some (.arr _) => none
  | some (.obj _) => none
  | some _ => some .immediate

def words (s : String) : List String :=
  ((s.toList.splitOnP PyStr.isSpace).filter (· ≠ [])).map String.ofList

/-- `_fallback_title`. -/
def fallbackTitle (description : String) : String := " ".intercalate ((words description).take 5) ++ "..."

/-! ## The classifier (`generate_title`, llm.py) -/

inductive Cause where
  | noModelConfigured
  | requestFailed
  | unusableResponse
  deriving DecidableEq, Repr

/-- Its questions are for intake, which keeps them on the draft. -/
structure LLMResult where
  title : String
  success : Bool
  category : Category
  executeAt : Json
  repeatInterval : Json
  repeatUntil : Json
  description : Option String
  profile : Option String
  cause : Option Cause

def LLMResult.attempted (r : LLMResult) : Bool :=
  match r.cause with
  | some .noModelConfigured => false
  | some .requestFailed => false
  | _ => true

def failed (title : String) (cause : Cause) : LLMResult :=
  ⟨title, false, .immediate, .null, .null, .null, none, none, some cause⟩

/-- `_strip_markdown_fences`. -/
def stripMarkdownFences (text : String) : String :=
  let stripped := PyStr.strip text.toList
  if "```".toList.isPrefixOf stripped then
    let body :=
      match stripped.dropWhile (· ≠ '\n') with
      | [] => stripped
      | _ :: rest => rest
    let trimmed := PyStr.rstrip body
    if "```".toList.isSuffixOf trimmed then String.ofList (PyStr.rstrip (trimmed.take (trimmed.length - 3)))
    else String.ofList body
  else String.ofList stripped

def field (key : String) (data : List (String × Json)) : Json := (Json.lookup key data).getD .null

def textOrNone : Json → Option String
  | .str s => some s
  | _ => none

section Open

variable (loads : String → Loads) (fromisoformat : String → Option Timestamp)

/-- `_parse_llm_response`; `none` inside is an answer that is no use, outside an exception. -/
def parseLlmResponse (raw : String) : Option (Option LLMResult) :=
  match loads (stripMarkdownFences raw) with
  | .value (.obj data) =>
    match field "title" data with
    | .str title =>
      if title.isEmpty then some none
      else
        (categoryOf (Json.lookup "category" data)).map fun category =>
          let description :=
            match field "description" data with
            | .str s => if (PyStr.stripString s).isEmpty then none else some (PyStr.stripString s)
            | _ => none
          some ⟨PyStr.stripString title, true, category, field "execute_at" data, field "repeat_interval" data,
            field "repeat_until" data, description, textOrNone (field "profile" data), none⟩
    | _ => some none
  | .value _ => some none
  | .decodeError => some none
  | _ => none

/-- What came of asking. -/
inductive Asked where
  | unconfigured
  | raised
  | content (content : Option String)
  deriving DecidableEq, Repr

def generateTitle (description : String) : Asked → LLMResult
  | .unconfigured => failed (fallbackTitle description) .noModelConfigured
  | .raised => failed (fallbackTitle description) .requestFailed
  | .content content =>
    let raw := PyStr.stripString (content.getD "")
    if raw.isEmpty then failed (fallbackTitle description) .unusableResponse
    else
      match parseLlmResponse loads raw with
      | some (some result) => result
      | some none => failed raw .unusableResponse
      | none => failed (fallbackTitle description) .requestFailed

/-- A date the classifier wrote; one that is none is dropped. -/
def parseDatetime : Json → Option Timestamp
  | .str s => if s.isEmpty then none else fromisoformat s
  | _ => none

/-! ## Profiles -/

/-- The profiles by name, with their ids. -/
abbrev Profiles := List (String × Nat)

def profileNamed (profiles : Profiles) (name : String) : Option Nat := (profiles.find? (·.1 = name)).map (·.2)

/-- `resolve_is_eval`. -/
def resolveIsEval (profiles : Profiles) : Option Nat → Bool
  | none => false
  | some id => ((profiles.find? (·.2 = id)).map fun p => startsWith "eval--" p.1).getD false

/-! ## `create_task_from_fields` -/

structure Fields where
  title : String
  description : Option String
  category : Category
  executeAt : Option Timestamp
  repeatInterval : Option String
  repeatUntil : Option Timestamp
  profileId : Option Nat
  createdBy : Option String
  tagNames : List String
  deriving DecidableEq, Repr

def routed (category : Category) (tagNames : List String) : Status :=
  if "Needs Info" ∈ tagNames then .review
  else
    match category with
    | .immediate => .pending
    | .scheduled => .scheduled
    | .repeating => .scheduled

/-- A row with the columns a new task has. -/
def newRow (now : Timestamp) (profiles : Profiles) (f : Fields) (status : Status) (position : Int) : Task where
  title := f.title
  description := f.description
  status := status
  createdAt := now
  updatedAt := now
  category := some f.category.text
  executeAt := f.executeAt
  repeatInterval := f.repeatInterval
  repeatUntil := f.repeatUntil
  position := position
  output := none
  runnerLogs := none
  questions := none
  retryCount := 0
  heartbeatAt := none
  profileId := f.profileId
  createdBy := f.createdBy
  updatedBy := none
  isEval := resolveIsEval profiles f.profileId
  tags := f.tagNames

def createTaskFromFields (now : Timestamp) (db : Db) (profiles : Profiles) (f : Fields) : Db :=
  let f := if f.category = .immediate then { f with executeAt := some now } else f
  let status := routed f.category f.tagNames
  -- The row is in its column, at position 0, when the bottom is looked for.
  let position := nextPosition (db.insert (newRow now profiles f status 0)) status
  db.insert (newRow now profiles f status position)

/-! ## `POST /api/tasks` -/

/-- A value for a nullable text column. -/
def textColumn : Json → Option (Option String)
  | .null => some none
  | .str s => some (some s)
  | _ => none

/-- What becomes of the description, and whether the user is asked for more. -/
def describe (inputText : String) (r : LLMResult) : Option String × List String :=
  if !r.attempted then (some inputText, [])
  else if !r.success then (some inputText, ["Needs Info"])
  else
    match r.description with
    | none => (none, ["Needs Info"])
    | some description => (some description, [])

/-- The id of the profile a classifier or a draft names. -/
def suggestedProfile (profiles : Profiles) (profile : Option String) : Option Nat :=
  match profile with
  | none => none
  | some name => if name.isEmpty then none else profileNamed profiles name

def createTask (now : Timestamp) (db : Db) (profiles : Profiles) (input : String) (asked : Asked)
    (email : Option String) : Option Db :=
  let inputText := PyStr.stripString input
  if (words inputText).length > 5 then
    let r := generateTitle loads inputText asked
    let (description, tagNames) := describe inputText r
    (textColumn r.repeatInterval).map fun repeatInterval =>
      createTaskFromFields now db profiles
        ⟨r.title, description, r.category, parseDatetime fromisoformat r.executeAt, repeatInterval,
          parseDatetime fromisoformat r.repeatUntil, suggestedProfile profiles r.profile, email, tagNames⟩
  else
    some (createTaskFromFields now db profiles
      ⟨inputText, none, .immediate, none, none, none, none, email, ["Needs Info"]⟩)

/-! ## A confirmed draft (clarify.py) -/

structure Draft where
  inputText : String
  spec : List (String × Json)
  /-- `_answered_clarifications`. -/
  answers : List String

/-- `_composed_description`. -/
def composedDescription (draft : Draft) : String :=
  if draft.answers.isEmpty then draft.inputText
  else draft.inputText ++ "\n\nClarifications:\n" ++ "\n".intercalate draft.answers

/-- A text, or what stands in for one that is missing. -/
def textOr (default : String) (value : Json) : Option String :=
  if value.truthy then textOrNone value else some default

/-- A profile a spec names; asking the database for what is no text raises. -/
def specProfile (profiles : Profiles) (value : Json) : Option (Option Nat) :=
  if value.truthy then (textOrNone value).map (profileNamed profiles) else some none

/-- `_resolved_fields`, and the arguments `confirm` makes of them. -/
def resolvedFields (profiles : Profiles) (draft : Draft) (owner : String) (extraTags : List String) : Option Fields :=
  (textOr (fallbackTitle draft.inputText) (field "title" draft.spec)).bind fun title =>
  (textOr (composedDescription draft) (field "description" draft.spec)).bind fun description =>
  (categoryOf (Json.lookup "category" draft.spec)).bind fun category =>
  (textColumn (field "repeat_interval" draft.spec)).bind fun repeatInterval =>
  (specProfile profiles (field "profile" draft.spec)).map fun profileId =>
    ⟨title, some description, category, parseDatetime fromisoformat (field "execute_at" draft.spec), repeatInterval,
      parseDatetime fromisoformat (field "repeat_until" draft.spec), profileId, some owner, extraTags⟩

def confirm (now : Timestamp) (db : Db) (profiles : Profiles) (draft : Draft) (owner : String)
    (extraTags : List String) : Option Db :=
  (resolvedFields fromisoformat profiles draft owner extraTags).map (createTaskFromFields now db profiles)

/-! ## The MCP tools (mcp_server.py) -/

/-- A profile named by the caller; one that is not found is an error. -/
def explicitProfile (profiles : Profiles) (profile : Option String) : Option (Option Nat) :=
  match profile with
  | none => some none
  | some name => if name.isEmpty then some none else (profileNamed profiles name).map some

/-- The title, the description, the category and the profile `new_task` settles on; the
    classifier's dates are not among them. -/
def newTaskFields (profiles : Profiles) (description : String) (profile title : Option String) (asked : Asked)
    (explicit : Option Nat) : String × Option String × Category × Option Nat :=
  match title with
  | some title =>
    if title.isEmpty then classify
    else (title, if description.isEmpty then none else some description, .immediate, explicit)
  | none => classify
where
  classify :=
    let stripped := PyStr.stripString description
    if (words stripped).length > 5 then
      let r := generateTitle loads description asked
      (r.title, if r.success then r.description else some stripped, r.category,
        if (profile.getD "").isEmpty then suggestedProfile profiles r.profile else explicit)
    else (stripped, none, .immediate, explicit)

def newTask (now : Timestamp) (db : Db) (profiles : Profiles) (description : String) (profile title : Option String)
    (asked : Asked) (clientId : String) : Option Db :=
  (explicitProfile profiles profile).map fun explicit =>
    let (title, cleanedDescription, category, profileId) :=
      newTaskFields loads profiles description profile title asked explicit
    let status := routed category []
    db.insert (newRow now profiles ⟨title, cleanedDescription, category, none, none, none, profileId, some clientId, []⟩
      status (nextPosition db status))

/-- A date that has to be one, where there is one. -/
def requiredDate : Option String → Option (Option Timestamp)
  | none => some none
  | some s => (fromisoformat s).map some

def normalisedInterval : Option String → Option (Option String)
  | none => some none
  | some s => (Intervals.normalizeInterval s.toList).map fun normalised => some (String.ofList normalised)

def scheduleTask (now : Timestamp) (db : Db) (profiles : Profiles) (description executeAt : String)
    (repeatInterval repeatUntil profile : Option String) (asked : Asked) (clientId : String) : Option Db :=
  (fromisoformat executeAt).bind fun parsedExecuteAt =>
  (normalisedInterval repeatInterval).bind fun normalised =>
  (requiredDate fromisoformat repeatUntil).bind fun parsedRepeatUntil =>
  (explicitProfile profiles profile).map fun profileId =>
    let stripped := PyStr.stripString description
    let (title, cleanedDescription) :=
      if (words stripped).length > 5 then
        let r := generateTitle loads description asked
        (r.title, some (match r.description with
          | some description => if description.isEmpty then stripped else description
          | none => stripped))
      else (stripped, none)
    let category := if (normalised.getD "").isEmpty then .scheduled else .repeating
    db.insert (newRow now profiles
      ⟨title, cleanedDescription, category, some parsedExecuteAt, normalised, parsedRepeatUntil, profileId,
        some clientId, []⟩
      .scheduled (nextPosition db .scheduled))

/-! ## Scheduled rows have a time -/

/-- A task on the schedule has a time to leave it. -/
def Timed (t : Task) : Prop := t.status = .scheduled → t.executeAt.isSome = true

/-- What the classifier puts on the schedule has a time that can be read. -/
def AnswerTimed (r : LLMResult) : Prop :=
  r.success = true → r.description.isSome = true → r.category ≠ .immediate →
    (parseDatetime fromisoformat r.executeAt).isSome = true

/-- What a spec puts on the schedule has. -/
def SpecTimed (spec : List (String × Json)) (extraTags : List String) : Prop :=
  ∀ category, categoryOf (Json.lookup "category" spec) = some category → category ≠ .immediate →
    "Needs Info" ∉ extraTags → (parseDatetime fromisoformat (field "execute_at" spec)).isSome = true

/-- A description `new_task` has classified goes to `pending`. -/
def ToolTimed (description : String) (title : Option String) (asked : Asked) : Prop :=
  (title.getD "").isEmpty = true → 5 < (words (PyStr.stripString description)).length →
    (generateTitle loads description asked).category = .immediate

theorem routed_scheduled {category : Category} {tagNames : List String} :
    routed category tagNames = .scheduled ↔ "Needs Info" ∉ tagNames ∧ category ≠ .immediate := by
  unfold routed
  by_cases h : "Needs Info" ∈ tagNames
  · simp [h]
  · cases category <;> simp [h]

theorem createTaskFromFields_row (now : Timestamp) (db : Db) (profiles : Profiles) (f : Fields) :
    ∃ t, createTaskFromFields now db profiles f = db.insert t ∧
      (Timed t ↔ (f.category ≠ .immediate → "Needs Info" ∉ f.tagNames → f.executeAt.isSome = true)) := by
  refine ⟨_, rfl, ?_⟩
  unfold Timed newRow
  by_cases hc : f.category = .immediate
  · simp [hc, routed_scheduled]
  · simp [hc, routed_scheduled]

variable {loads fromisoformat}

theorem parseLlmResponse_success {raw : String} {r : LLMResult} (h : parseLlmResponse loads raw = some (some r)) :
    r.success = true ∧ r.cause = none := by
  unfold parseLlmResponse at h
  split at h
  · split at h
    · split at h
      · cases h
      · obtain ⟨category, -, h⟩ := Option.map_eq_some_iff.mp h
        cases h
        exact ⟨rfl, rfl⟩
    · cases h
  · cases h
  · cases h
  · cases h

/-- An answer that is no use leaves the task an immediate one. -/
theorem generateTitle_cases (loads : String → Loads) (description : String) (asked : Asked) :
    (generateTitle loads description asked).success = true ∧ (generateTitle loads description asked).cause = none ∨
      (generateTitle loads description asked).success = false ∧
        (generateTitle loads description asked).category = .immediate := by
  cases asked with
  | unconfigured => exact .inr ⟨rfl, rfl⟩
  | raised => exact .inr ⟨rfl, rfl⟩
  | content content =>
    simp only [generateTitle]
    split
    · exact .inr ⟨rfl, rfl⟩
    · split
      · rename_i r hr
        exact .inl (parseLlmResponse_success hr)
      · exact .inr ⟨rfl, rfl⟩
      · exact .inr ⟨rfl, rfl⟩

theorem describe_needsInfo {inputText : String} {r : LLMResult} (hs : r.success = true) (hc : r.cause = none) :
    "Needs Info" ∉ (describe inputText r).2 ↔ r.description.isSome = true := by
  have hattempted : r.attempted = true := by rw [LLMResult.attempted, hc]
  unfold describe
  cases hd : r.description <;> simp [hattempted, hs]

theorem createTask_row {now : Timestamp} {db db' : Db} {profiles : Profiles} {input : String} {asked : Asked}
    {email : Option String} (h : createTask loads fromisoformat now db profiles input asked email = some db') :
    ∃ t, db' = db.insert t ∧
      (Timed t ↔ (5 < (words (PyStr.stripString input)).length →
        AnswerTimed fromisoformat (generateTitle loads (PyStr.stripString input) asked))) := by
  simp only [createTask] at h
  split at h
  · rename_i hlong
    obtain ⟨repeatInterval, -, rfl⟩ := Option.map_eq_some_iff.mp h
    obtain ⟨t, ht, htimed⟩ := createTaskFromFields_row now db profiles _
    refine ⟨t, ht, htimed.trans ?_⟩
    simp only [AnswerTimed, hlong, true_imp_iff]
    rcases generateTitle_cases loads (PyStr.stripString input) asked with ⟨hs, hcause⟩ | ⟨hs, hcategory⟩
    · rw [describe_needsInfo hs hcause]
      constructor
      · intro h _ hd hc
        exact h hc hd
      · intro h hc hd
        exact h hs hd hc
    · simp [hs, hcategory]
  · rename_i hshort
    obtain rfl := Option.some.inj h
    obtain ⟨t, ht, htimed⟩ := createTaskFromFields_row now db profiles _
    refine ⟨t, ht, htimed.trans ?_⟩
    simp [hshort]

theorem confirm_row {now : Timestamp} {db db' : Db} {profiles : Profiles} {draft : Draft} {owner : String}
    {extraTags : List String} (h : confirm fromisoformat now db profiles draft owner extraTags = some db') :
    ∃ t, db' = db.insert t ∧ (Timed t ↔ SpecTimed fromisoformat draft.spec extraTags) := by
  obtain ⟨f, hf, rfl⟩ := Option.map_eq_some_iff.mp h
  simp only [resolvedFields, Option.bind_eq_some_iff, Option.map_eq_some_iff] at hf
  obtain ⟨title, -, description, -, category, hcategory, repeatInterval, -, profileId, -, rfl⟩ := hf
  obtain ⟨t, ht, htimed⟩ := createTaskFromFields_row now db profiles _
  refine ⟨t, ht, htimed.trans ?_⟩
  unfold SpecTimed
  rw [hcategory]
  simp

theorem newTask_row {now : Timestamp} {db db' : Db} {profiles : Profiles} {description : String}
    {profile title : Option String} {asked : Asked} {clientId : String}
    (h : newTask loads now db profiles description profile title asked clientId = some db') :
    ∃ t, db' = db.insert t ∧ (Timed t ↔ ToolTimed loads description title asked) := by
  obtain ⟨explicit, -, h⟩ := Option.map_eq_some_iff.mp h
  have hcategory : (newTaskFields loads profiles description profile title asked explicit).2.2.1 = .immediate ↔
      ToolTimed loads description title asked := by
    unfold newTaskFields newTaskFields.classify ToolTimed
    cases title with
    | none =>
      by_cases hlong : 5 < (words (PyStr.stripString description)).length
      · simp [hlong]
      · simp [hlong]
    | some title =>
      by_cases hempty : title.isEmpty = true
      · by_cases hlong : 5 < (words (PyStr.stripString description)).length
        · simp [hempty, hlong]
        · simp [hempty, hlong]
      · simp [hempty]
  rw [← hcategory]
  generalize newTaskFields loads profiles description profile title asked explicit = fields at h ⊢
  obtain ⟨title, cleanedDescription, category, profileId⟩ := fields
  refine ⟨_, h.symm, ?_⟩
  simp only [Timed, newRow, routed_scheduled]
  simp

theorem scheduleTask_row {now : Timestamp} {db db' : Db} {profiles : Profiles} {description executeAt : String}
    {repeatInterval repeatUntil profile : Option String} {asked : Asked} {clientId : String}
    (h : scheduleTask loads fromisoformat now db profiles description executeAt repeatInterval repeatUntil profile asked
      clientId = some db') :
    ∃ t, db' = db.insert t ∧ Timed t := by
  simp only [scheduleTask, Option.bind_eq_some_iff, Option.map_eq_some_iff] at h
  obtain ⟨parsedExecuteAt, -, normalised, -, parsedRepeatUntil, -, profileId, -, rfl⟩ := h
  exact ⟨_, rfl, fun _ => rfl⟩

end Open

end Errand.Server.TaskCreation

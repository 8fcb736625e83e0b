import Errand.Lib.Machine
import Errand.Server.TaskCreation
import Mathlib.Logic.Function.Basic

/-
  Errand.Server.Drafts — one draft of the intake and the requests on it (errand/clarify.py):
  `answer`, `confirm`, `cancel` and `sweep_expired_drafts`, any number of each.

  A request is in the phase after its last statement on the draft's row. Statements that no
  other request can tell apart are one step; so are the statements of `answer` and `confirm`
  on other tables with the commit they come before. The row is locked from an UPDATE that has
  matched to the commit; one that meets the lock waits where the committed row matches its
  condition, and a load reads the committed row. A request keeps the object it has loaded.
  The classifier's answers, the settings and the clocks are in the events.

  Proved:
  - `ends_once_iff`: the draft ends once all along exactly the runs in which every UPDATE of
    a `cancel` finds the draft still active.
  - `a_cancel_overwrites`: one in which it does not.
  - `contains_answers_iff`: every task is built from the version of the draft that was
    confirmed all along exactly the runs in which no answer is committed between the load of a
    `confirm` that creates a task and its claim.
  - `a_confirm_drops_an_answer`: one in which it is.
-/

namespace Errand.Server.Drafts

open Errand.Lib Errand.Runner Errand.Server.Tasks Errand.Server.TaskCreation

/-! ## A draft -/

inductive DraftStatus where
  | drafting
  | ready
  | confirmed
  | abandoned
  deriving DecidableEq, Repr

/-- In `ACTIVE_STATUSES`. -/
def DraftStatus.active : DraftStatus → Bool
  | .drafting | .ready => true
  | .confirmed | .abandoned => false

inductive Role where
  | user
  | assistant
  deriving DecidableEq, Repr

structure Turn where
  role : Role
  content : String
  deriving DecidableEq, Repr

structure Question where
  id : String
  text : String
  deriving DecidableEq, Repr

structure TaskSpecDraft where
  ownerId : String
  inputText : String
  conversation : List Turn
  spec : List (String × Json)
  questions : Option (List Question)
  questionsUnresolved : Bool
  status : DraftStatus
  round : Nat
  expiresAt : Timestamp
  resolvedTaskId : Option Nat

/-- `DRAFT_TTL`. -/
def draftTtl : Timestamp := 86400000000

/-- `_answered_clarifications`. -/
def answeredClarifications (conversation : List Turn) : List String :=
  ((conversation.filter (·.role = .user)).drop 1).map (·.content)

/-- What `_resolved_fields` reads of a draft. -/
def TaskSpecDraft.intake (draft : TaskSpecDraft) : Draft :=
  ⟨draft.inputText, draft.spec, answeredClarifications draft.conversation⟩

/-! ## The classifier's answer -/

local instance lawfulText : LawfulBEq (List Char) := inferInstance

def specValue : Json → Json
  | .str s => if PyStr.lower (PyStr.strip s.toList) ∈ ["", "null", "none"].map String.toList then .null else .str s
  | value => value

def textJson : Option String → Json
  | none => .null
  | some s => .str s

/-- Its `SPEC_FIELDS`. -/
def specOf (result : LLMResult) : List (String × Json) :=
  [("title", specValue (.str result.title)), ("description", specValue (textJson result.description)),
    ("category", specValue (.str result.category.text)), ("execute_at", specValue result.executeAt),
    ("repeat_interval", specValue result.repeatInterval), ("repeat_until", specValue result.repeatUntil),
    ("profile", specValue (textJson result.profile))]

structure Classified where
  result : LLMResult
  questions : List Question

/-- `_resolved_fields(draft)["title"]` of a spec made by `_classify`. -/
def resolvedTitle (inputText : String) (spec : List (String × Json)) : String :=
  (textOr (fallbackTitle inputText) (field "title" spec)).getD ""

/-- `_classify`, once the classifier has answered. -/
def classify (draft : TaskSpecDraft) (answer : Classified) (capReached : Bool) : TaskSpecDraft :=
  let spec := if answer.result.success then specOf answer.result else []
  let questions := if answer.result.success then answer.questions else []
  if questions ≠ [] ∧ capReached = false then
    { draft with
      spec := spec
      status := .drafting
      questions := some questions
      questionsUnresolved := false
      conversation := draft.conversation ++ [⟨.assistant, "\n".intercalate (questions.map (·.text))⟩] }
  else
    { draft with
      spec := spec
      status := .ready
      questions := if questions = [] then none else some questions
      questionsUnresolved := questions ≠ []
      conversation := draft.conversation ++ [⟨.assistant, "Ready: " ++ resolvedTitle draft.inputText spec⟩] }

def begin (inputText owner : String) (now : Timestamp) (answer : Classified) : TaskSpecDraft :=
  let inputText := PyStr.stripString inputText
  classify ⟨owner, inputText, [⟨.user, inputText⟩], [], none, false, .drafting, 0, now + draftTtl, none⟩ answer false

/-! ## Requests -/

inductive Request where
  | answer (responses : List (String × Json))
  | confirm (extraTags : List String)
  | cancel

/-- What a request that was let in is about to do. -/
inductive Op where
  | answer (content : String)
  | confirm (extraTags : List String)
  | cancel
  deriving DecidableEq, Repr

def answerLine (responses : List (String × Json)) (question : Question) : Option String :=
  match Json.lookup question.id responses with
  | some (.str value) =>
    if (PyStr.stripString value).isEmpty then none else some (question.text ++ " -> " ++ PyStr.stripString value)
  | _ => none

def answerContent (questions : List Question) (responses : List (String × Json)) : String :=
  let content := "\n".intercalate (questions.filterMap (answerLine responses))
  if content.isEmpty then "(no answer given)" else content

/-- `_load` and the checks after it; `none` is a request refused. -/
def asked (owner : String) (now : Timestamp) (request : Request) (draft : TaskSpecDraft) : Option Op :=
  if draft.ownerId ≠ owner ∨ draft.expiresAt ≤ now then none
  else
    match request with
    | .answer responses =>
      if draft.status ≠ .drafting ∨ draft.questions.getD [] = [] then none
      else some (.answer (answerContent (draft.questions.getD []) responses))
    | .confirm extraTags => some (.confirm extraTags)
    | .cancel => if draft.status.active then some .cancel else none

/-- The condition of an UPDATE, on the row, where `draft` has been loaded. -/
def Matches (draft row : TaskSpecDraft) : Op → Prop
  | .answer _ => row.status = .drafting ∧ row.round = draft.round
  | .confirm _ => row.status.active = true
  | .cancel => True

instance (draft row : TaskSpecDraft) (op : Op) : Decidable (Matches draft row op) := by
  cases op <;> unfold Matches <;> infer_instance

/-- What the UPDATE makes of the row. -/
def Op.write (draft row : TaskSpecDraft) : Op → TaskSpecDraft
  | .answer _ => { row with round := draft.round + 1 }
  | .confirm _ => { row with status := .confirmed }
  | .cancel => { row with status := .abandoned }

/-- What `answer` makes of the object it has loaded. -/
def answered (draft : TaskSpecDraft) (content : String) (now : Timestamp) (answer : Classified) (maxRounds : Nat) :
    TaskSpecDraft :=
  classify
    { draft with
      conversation := draft.conversation ++ [⟨.user, content⟩]
      round := draft.round + 1
      expiresAt := now + draftTtl }
    answer (decide (max 1 maxRounds ≤ draft.round + 1))

/-- The columns `answer` has changed, written to the row. -/
def flush (row draft : TaskSpecDraft) : TaskSpecDraft :=
  { row with
    conversation := draft.conversation
    spec := draft.spec
    questions := draft.questions
    questionsUnresolved := draft.questionsUnresolved
    status := draft.status
    round := draft.round
    expiresAt := draft.expiresAt }

/-! ## Runs -/

inductive Phase where
  | idle
  | loaded (op : Op) (draft : TaskSpecDraft)
  /-- Its UPDATE has matched. -/
  | written (op : Op) (draft : TaskSpecDraft)
  | answered
  /-- A `confirm` that has created its task and is to note it on the draft. -/
  | created (task : Nat)
  | noted (task : Nat)
  /-- A sweep after its UPDATE. -/
  | swept (now : Timestamp)
  /-- And after its DELETE. -/
  | deleted
  | over
  /-- A `confirm` or a `cancel` that reports success. -/
  | reported
  | raised

/-- A task, with the object it was built from and the row its `confirm` had claimed. -/
structure Created where
  built : TaskSpecDraft
  claimed : TaskSpecDraft
  extraTags : List String
  profiles : Profiles
  fields : Fields

/-- The object a request has loaded and is to write. -/
def Phase.draft : Phase → Option TaskSpecDraft
  | .loaded _ draft | .written _ draft => some draft
  | _ => none

structure St where
  /-- The row as it is committed. -/
  row : Option TaskSpecDraft
  /-- The request that holds the row's lock, and what it has written. -/
  writer : Option (Nat × Option TaskSpecDraft)
  phase : Nat → Phase
  tasks : List Created
  /-- The commits that ended the draft, and how. -/
  ended : List (Nat × DraftStatus)

inductive Ev where
  | load (id : Nat) (owner : String) (request : Request) (now : Timestamp)
  | update (id : Nat)
  | commitAnswer (id : Nat) (now : Timestamp) (answer : Classified) (maxRounds : Nat)
  | commitConfirm (id : Nat) (profiles : Profiles)
  | commitCancel (id : Nat)
  | note (id : Nat)
  | commitNote (id : Nat)
  | sweepUpdate (id : Nat) (now : Timestamp)
  | sweepDelete (id : Nat)
  | sweepCommit (id : Nat)
  | fail (id : Nat)

def St.to (s : St) (id : Nat) (phase : Phase) : St := { s with phase := Function.update s.phase id phase }

/-- The row as a request sees it. -/
def St.seen (s : St) (id : Nat) : Option TaskSpecDraft :=
  match s.writer with
  | some (holder, written) => if holder = id then written else s.row
  | none => s.row

/-- A commit of what the request has written. -/
def St.commit (s : St) (id : Nat) (written : Option TaskSpecDraft) (phase : Phase) : St :=
  { s with row := written, writer := none, phase := Function.update s.phase id phase }

def Expired (now : Timestamp) (row : TaskSpecDraft) : Prop := row.status.active = true ∧ row.expiresAt ≤ now

instance (now : Timestamp) (row : TaskSpecDraft) : Decidable (Expired now row) := inferInstanceAs (Decidable (_ ∧ _))

def Forgotten (now : Timestamp) (row : TaskSpecDraft) : Prop :=
  row.status = .abandoned ∧ row.expiresAt ≤ now - draftTtl

instance (now : Timestamp) (row : TaskSpecDraft) : Decidable (Forgotten now row) := inferInstanceAs (Decidable (_ ∧ _))

section Open

variable (fromisoformat : String → Option Timestamp)

def step (s : St) : Ev → Option St
  | .load id owner request now =>
    match s.phase id with
    | .idle =>
      match s.row with
      | none => some (s.to id .raised)
      | some draft =>
        match asked owner now request draft with
        | none => some (s.to id .raised)
        | some op => some (s.to id (.loaded op draft))
    | _ => none
  | .update id =>
    match s.phase id with
    | .loaded op draft =>
      match s.row with
      | none => some (s.to id .raised)
      | some row =>
        if Matches draft row op then
          if s.writer.isNone then
            some { s.to id (.written op draft) with writer := some (id, some (op.write draft row)) }
          else none
        else some (s.to id .raised)
    | _ => none
  | .commitAnswer id now answer maxRounds =>
    match s.phase id, s.writer with
    | .written (.answer content) draft, some (_, some row) =>
      some (s.commit id (some (flush row (answered draft content now answer maxRounds))) .answered)
    | _, _ => none
  | .commitConfirm id profiles =>
    match s.phase id, s.writer, s.row with
    | .written (.confirm extraTags) draft, some (_, some row), some claimed =>
      (resolvedFields fromisoformat profiles draft.intake draft.ownerId extraTags).map fun fields =>
        { s.commit id (some row) (.created s.tasks.length) with
          tasks := s.tasks ++ [⟨draft, claimed, extraTags, profiles, fields⟩]
          ended := (id, .confirmed) :: s.ended }
    | _, _, _ => none
  | .commitCancel id =>
    match s.phase id, s.writer with
    | .written .cancel _, some (_, some row) =>
      some { s.commit id (some row) .reported with ended := (id, .abandoned) :: s.ended }
    | _, _ => none
  | .note id =>
    match s.phase id with
    | .created task =>
      match s.row with
      | none => some (s.to id .raised)
      | some row =>
        if s.writer.isNone then
          some { s.to id (.noted task) with writer := some (id, some { row with resolvedTaskId := some task }) }
        else none
    | _ => none
  | .commitNote id =>
    match s.phase id, s.writer with
    | .noted _, some (_, some row) => some (s.commit id (some row) .reported)
    | _, _ => none
  | .sweepUpdate id now =>
    match s.phase id with
    | .idle =>
      match s.row with
      | none => some (s.to id (.swept now))
      | some row =>
        if Expired now row then
          if s.writer.isNone then
            some { s.to id (.swept now) with writer := some (id, some { row with status := .abandoned }) }
          else none
        else some (s.to id (.swept now))
    | _ => none
  | .sweepDelete id =>
    match s.phase id with
    | .swept now =>
      match s.seen id with
      | none => some (s.to id .deleted)
      | some row =>
        if Forgotten now row then
          if s.writer.all (·.1 = id) then some { s.to id .deleted with writer := some (id, none) } else none
        else some (s.to id .deleted)
    | _ => none
  | .sweepCommit id =>
    match s.phase id with
    | .deleted =>
      match s.writer with
      | some (holder, written) =>
        if holder = id then
          some { s.commit id written .over with
            ended := if s.row.any (·.status.active) then (id, .abandoned) :: s.ended else s.ended }
        else some (s.to id .over)
      | none => some (s.to id .over)
    | _ => none
  | .fail id =>
    match s.phase id with
    | .idle | .answered | .over | .reported | .raised => none
    | _ => some { s.to id .raised with writer := s.writer.filter (·.1 ≠ id) }

/-- A draft that has just been started. -/
def start (inputText owner : String) (now : Timestamp) (answer : Classified) : St :=
  ⟨some (begin inputText owner now answer), none, fun _ => .idle, [], []⟩

def machine : Machine St Ev where
  init s := ∃ inputText owner now answer, s = start inputText owner now answer
  step := step fromisoformat

end Open

/-- The draft has ended at most once, and as its status says; a task was created exactly if it
    is confirmed; who reports success has ended it. -/
structure EndsOnce (s : St) : Prop where
  once : s.ended.length ≤ 1
  final : ∀ p ∈ s.ended, ∀ row, s.row = some row → row.status = p.2
  one : s.tasks.length ≤ 1
  confirmed : (∃ row, s.row = some row ∧ row.status = .confirmed) ↔ s.tasks ≠ []
  reported : ∀ id, s.phase id = .reported → ∃ status, (id, status) ∈ s.ended

/-- The UPDATE of a `cancel` that is committed has found the draft active. -/
def OnActive (s : St) : Ev → Prop
  | .commitCancel _ => ∀ row, s.row = some row → row.status.active = true
  | _ => True

/-- A task is built from the version of the draft that was confirmed. -/
structure BuiltFrom (fromisoformat : String → Option Timestamp) (task : Created) : Prop where
  conversation : task.built.conversation = task.claimed.conversation
  spec : task.built.spec = task.claimed.spec
  fields : resolvedFields fromisoformat task.profiles task.claimed.intake task.claimed.ownerId task.extraTags =
    some task.fields

/-- No answer has been committed since the load of a `confirm` that creates a task. -/
def Unanswered (s : St) : Ev → Prop
  | .commitConfirm id _ => ∀ draft row, (s.phase id).draft = some draft → s.row = some row → row.round = draft.round
  | _ => True

/-! ## What a step can do -/

/-- A phase in which a request may hold the row's lock. -/
def Phase.locking : Phase → Bool
  | .written _ _ | .noted _ | .swept _ | .deleted => true
  | _ => false

def Ev.commits : Ev → Bool
  | .commitAnswer .. | .commitConfirm .. | .commitCancel _ | .commitNote _ | .sweepCommit _ => true
  | _ => false

/-- What each step does, with what held before it. -/
inductive Does (fromisoformat : String → Option Timestamp) (s : St) : Ev → St → Prop
  | loaded {id : Nat} {owner : String} {request : Request} {now : Timestamp} {op : Op} {draft : TaskSpecDraft} :
      s.row = some draft → s.phase id = .idle → Does fromisoformat s (.load id owner request now) (s.to id (.loaded op draft))
  | raised {e : Ev} {id : Nat} : e.commits = false → (s.phase id).locking = false → Does fromisoformat s e (s.to id .raised)
  | wrote {id : Nat} {op : Op} {draft row : TaskSpecDraft} : s.phase id = .loaded op draft → s.row = some row →
      Matches draft row op → s.writer = none →
      Does fromisoformat s (.update id) { s.to id (.written op draft) with writer := some (id, some (op.write draft row)) }
  | answered {id holder maxRounds : Nat} {content : String} {draft row : TaskSpecDraft} {now : Timestamp}
      {answer : Classified} : s.phase id = .written (.answer content) draft → s.writer = some (holder, some row) →
      Does fromisoformat s (.commitAnswer id now answer maxRounds)
        (s.commit id (some (flush row (answered draft content now answer maxRounds))) .answered)
  | confirmed {id holder : Nat} {extraTags : List String} {draft row claimed : TaskSpecDraft} {profiles : Profiles}
      {fields : Fields} : s.phase id = .written (.confirm extraTags) draft → s.writer = some (holder, some row) →
      s.row = some claimed → resolvedFields fromisoformat profiles draft.intake draft.ownerId extraTags = some fields →
      Does fromisoformat s (.commitConfirm id profiles)
        { s.commit id (some row) (.created s.tasks.length) with
          tasks := s.tasks ++ [⟨draft, claimed, extraTags, profiles, fields⟩]
          ended := (id, .confirmed) :: s.ended }
  | cancelled {id holder : Nat} {draft row : TaskSpecDraft} : s.phase id = .written .cancel draft →
      s.writer = some (holder, some row) →
      Does fromisoformat s (.commitCancel id)
        { s.commit id (some row) .reported with ended := (id, .abandoned) :: s.ended }
  | noting {id task : Nat} {row : TaskSpecDraft} : s.phase id = .created task → s.row = some row → s.writer = none →
      Does fromisoformat s (.note id)
        { s.to id (.noted task) with writer := some (id, some { row with resolvedTaskId := some task }) }
  | noted {id holder task : Nat} {row : TaskSpecDraft} : s.phase id = .noted task → s.writer = some (holder, some row) →
      Does fromisoformat s (.commitNote id) (s.commit id (some row) .reported)
  | swept {id : Nat} {now : Timestamp} : s.phase id = .idle → Does fromisoformat s (.sweepUpdate id now) (s.to id (.swept now))
  | sweeping {id : Nat} {now : Timestamp} {row : TaskSpecDraft} : s.phase id = .idle → s.row = some row →
      Expired now row → s.writer = none →
      Does fromisoformat s (.sweepUpdate id now)
        { s.to id (.swept now) with writer := some (id, some { row with status := .abandoned }) }
  | passed {id : Nat} {now : Timestamp} : s.phase id = .swept now → Does fromisoformat s (.sweepDelete id) (s.to id .deleted)
  | deleting {id : Nat} {now : Timestamp} {row : TaskSpecDraft} : s.phase id = .swept now → s.seen id = some row →
      Forgotten now row → (∀ holder written, s.writer = some (holder, written) → holder = id) →
      Does fromisoformat s (.sweepDelete id) { s.to id .deleted with writer := some (id, none) }
  | unswept {id : Nat} : s.phase id = .deleted → (∀ written, s.writer ≠ some (id, written)) →
      Does fromisoformat s (.sweepCommit id) (s.to id .over)
  | sweptOver {id : Nat} {written : Option TaskSpecDraft} : s.phase id = .deleted → s.writer = some (id, written) →
      Does fromisoformat s (.sweepCommit id)
        { s.commit id written .over with
          ended := if s.row.any (·.status.active) then (id, .abandoned) :: s.ended else s.ended }
  | failed {id : Nat} :
      Does fromisoformat s (.fail id) { s.to id .raised with writer := s.writer.filter (·.1 ≠ id) }

section Open

variable {fromisoformat : String → Option Timestamp}

theorem step_does {s s' : St} {e : Ev} (h : step fromisoformat s e = some s') : Does fromisoformat s e s' := by
  cases e with
  | load id owner request now =>
    simp only [step] at h
    split at h
    · rename_i hidle
      have hfree : (s.phase id).locking = false := by rw [hidle]; rfl
      split at h
      · cases h
        exact .raised rfl hfree
      · rename_i draft hrow
        split at h
        · cases h
          exact .raised rfl hfree
        · cases h
          exact .loaded hrow hidle
    · cases h
  | update id =>
    simp only [step] at h
    split at h
    · rename_i op draft hloaded
      have hfree : (s.phase id).locking = false := by rw [hloaded]; rfl
      split at h
      · cases h
        exact .raised rfl hfree
      · rename_i row hrow
        split at h
        · rename_i hm
          split at h
          · rename_i hwriter
            cases h
            exact .wrote hloaded hrow hm (Option.isNone_iff_eq_none.mp hwriter)
          · cases h
        · cases h
          exact .raised rfl hfree
    · cases h
  | commitAnswer id now answer maxRounds =>
    simp only [step] at h
    split at h
    · rename_i hphase hwriter
      cases h
      exact .answered hphase hwriter
    · cases h
  | commitConfirm id profiles =>
    simp only [step] at h
    split at h
    · rename_i hphase hwriter hrow
      obtain ⟨fields, hfields, rfl⟩ := Option.map_eq_some_iff.mp h
      exact .confirmed hphase hwriter hrow hfields
    · cases h
  | commitCancel id =>
    simp only [step] at h
    split at h
    · rename_i hphase hwriter
      cases h
      exact .cancelled hphase hwriter
    · cases h
  | note id =>
    simp only [step] at h
    split at h
    · rename_i task hcreated
      split at h
      · cases h
        exact .raised rfl (by rw [hcreated]; rfl)
      · rename_i row hrow
        split at h
        · rename_i hwriter
          cases h
          exact .noting hcreated hrow (Option.isNone_iff_eq_none.mp hwriter)
        · cases h
    · cases h
  | commitNote id =>
    simp only [step] at h
    split at h
    · rename_i hphase hwriter
      cases h
      exact .noted hphase hwriter
    · cases h
  | sweepUpdate id now =>
    simp only [step] at h
    split at h
    · rename_i hidle
      split at h
      · cases h
        exact .swept hidle
      · rename_i row hrow
        split at h
        · rename_i hexpired
          split at h
          · rename_i hwriter
            cases h
            exact .sweeping hidle hrow hexpired (Option.isNone_iff_eq_none.mp hwriter)
          · cases h
        · cases h
          exact .swept hidle
    · cases h
  | sweepDelete id =>
    simp only [step] at h
    split at h
    · rename_i now hswept
      split at h
      · cases h
        exact .passed hswept
      · rename_i row hseen
        split at h
        · rename_i hforgotten
          split at h
          · rename_i hwriter
            cases h
            refine .deleting hswept hseen hforgotten fun holder written hw => ?_
            rw [hw] at hwriter
            simpa using hwriter
          · cases h
        · cases h
          exact .passed hswept
    · cases h
  | sweepCommit id =>
    simp only [step] at h
    split at h
    · rename_i hdeleted
      split at h
      · rename_i holder written hwriter
        split at h
        · rename_i hown
          cases h
          subst hown
          exact .sweptOver hdeleted hwriter
        · rename_i hother
          cases h
          refine .unswept hdeleted fun _ hw => hother ?_
          rw [hwriter] at hw
          cases hw
          rfl
      · rename_i hnone
        cases h
        refine .unswept hdeleted fun _ hw => ?_
        rw [hnone] at hw
        cases hw
    · cases h
  | fail id =>
    simp only [step] at h
    split at h
    · cases h
    · cases h
    · cases h
    · cases h
    · cases h
    · cases h
      exact .failed

/-! ## What the steps keep -/

/-- What the holder of the lock has written, and what it found. -/
def Holds (row written : Option TaskSpecDraft) : Phase → Prop
  | .written op draft => ∃ r, row = some r ∧ Matches draft r op ∧ written = some (op.write draft r)
  | .noted task => ∃ r, row = some r ∧ written = some { r with resolvedTaskId := some task }
  | .swept _ => ∃ r, row = some r ∧ r.status.active = true ∧ written = some { r with status := .abandoned }
  | .deleted => ∃ r, row = some r ∧ (r.status.active = true ∧ written = some { r with status := .abandoned } ∨
      (r.status.active = true ∨ r.status = .abandoned) ∧ written = none)
  | _ => False

/-- A phase that has the lock. -/
def Phase.held : Phase → Bool
  | .written _ _ | .noted _ => true
  | _ => false

/-- A `confirm` or a `cancel` that has ended the draft. -/
def Phase.past : Phase → Bool
  | .created _ | .noted _ | .reported => true
  | _ => false

/-- A loaded object is the row's version, or has been left behind by an answer. -/
def Older (draft row : TaskSpecDraft) : Prop :=
  draft.inputText = row.inputText ∧ draft.ownerId = row.ownerId ∧
    (draft.round = row.round ∧ draft.conversation = row.conversation ∧ draft.spec = row.spec ∨
      draft.round < row.round ∧ draft.conversation.length < row.conversation.length)

def Locked (s : St) : Prop := ∀ id written, s.writer = some (id, written) → Holds s.row written (s.phase id)

def Held (s : St) : Prop := ∀ id, (s.phase id).held = true → ∃ written, s.writer = some (id, written)

/-- The draft is active until it has ended. -/
def Live (s : St) : Prop :=
  (∀ row, s.row = some row → (row.status.active = true ↔ s.ended = [])) ∧ (s.row = none → s.ended ≠ [])

def Past (s : St) : Prop := ∀ id, (s.phase id).past = true → ∃ status, (id, status) ∈ s.ended

def Loaded (s : St) : Prop :=
  ∀ id draft row, (s.phase id).draft = some draft → s.row = some row → Older draft row

structure Inv (s : St) : Prop where
  locked : Locked s
  held : Held s
  live : Live s
  past : Past s
  loaded : Loaded s

theorem Older.refl (draft : TaskSpecDraft) : Older draft draft := ⟨rfl, rfl, .inl ⟨rfl, rfl, rfl⟩⟩

/-- What the holder of the lock was in the middle of. -/
theorem Inv.holds {s : St} (hi : Inv s) (id : Nat) (hheld : (s.phase id).held = true) {holder : Nat}
    {written : Option TaskSpecDraft} (hw : s.writer = some (holder, written)) :
    holder = id ∧ Holds s.row written (s.phase id) := by
  obtain ⟨written', hw'⟩ := hi.held id hheld
  have hown := hi.locked id written' hw'
  rw [hw] at hw'
  cases hw'
  exact ⟨rfl, hown⟩

theorem locked_to {s : St} (h : Locked s) {id : Nat} {phase : Phase}
    (hnew : ∀ written, s.writer = some (id, written) → Holds s.row written phase) : Locked (s.to id phase) := by
  intro id' written hw
  by_cases hid : id' = id
  · subst hid
    simpa [St.to] using hnew written hw
  · simpa [St.to, hid] using h id' written hw

theorem held_to {s : St} (h : Held s) {id : Nat} {phase : Phase} (hnew : phase.held = false) : Held (s.to id phase) := by
  intro id' hheld
  by_cases hid : id' = id
  · subst hid
    simp [St.to, hnew] at hheld
  · exact h id' (by simpa [St.to, hid] using hheld)

theorem held_write {s : St} (h : Held s) (hw : s.writer = none) {id : Nat} {phase : Phase}
    {written : Option TaskSpecDraft} : Held { s.to id phase with writer := some (id, written) } := by
  intro id' hheld
  by_cases hid : id' = id
  · subst hid
    exact ⟨written, rfl⟩
  · obtain ⟨written', hw'⟩ := h id' (by simpa [St.to, hid] using hheld)
    rw [hw] at hw'
    cases hw'

/-- A commit is made by the one that has the lock. -/
theorem held_commit {s : St} (h : Held s) {id : Nat} {written : Option TaskSpecDraft}
    (hw : s.writer = some (id, written)) {phase : Phase} (hnew : phase.held = false) {row : Option TaskSpecDraft}
    {tasks : List Created} {ended : List (Nat × DraftStatus)} :
    Held { s.commit id row phase with tasks := tasks, ended := ended } := by
  intro id' hheld
  by_cases hid : id' = id
  · subst hid
    simp [St.commit, hnew] at hheld
  · obtain ⟨written', hw'⟩ := h id' (by simpa [St.commit, hid] using hheld)
    rw [hw] at hw'
    cases hw'
    exact absurd rfl hid

theorem past_to {s : St} (h : Past s) {id : Nat} {phase : Phase} (hnew : phase.past = false) : Past (s.to id phase) := by
  intro id' hpast
  by_cases hid : id' = id
  · subst hid
    simp [St.to, hnew] at hpast
  · exact h id' (by simpa [St.to, hid] using hpast)

theorem loaded_to {s : St} (h : Loaded s) {id : Nat} {phase : Phase}
    (hnew : ∀ draft row, phase.draft = some draft → s.row = some row → Older draft row) : Loaded (s.to id phase) := by
  intro id' draft row hphase hrow
  by_cases hid : id' = id
  · subst hid
    exact hnew draft row (by simpa [St.to] using hphase) hrow
  · exact h id' draft row (by simpa [St.to, hid] using hphase) hrow

theorem loaded_commit {s : St} (h : Loaded s) {id : Nat} {phase : Phase} (hnew : phase.draft = none)
    {row row' : TaskSpecDraft} (hrow : s.row = some row) (hkeep : ∀ draft, Older draft row → Older draft row') :
    Loaded (s.commit id (some row') phase) := by
  intro id' draft r hphase hr
  cases hr
  by_cases hid : id' = id
  · subst hid
    simp [St.commit, hnew] at hphase
  · exact hkeep draft (h id' draft row (by simpa [St.commit, hid] using hphase) hrow)

/-- What asking the classifier does to a draft. -/
theorem classify_spec (draft : TaskSpecDraft) (answer : Classified) (capReached : Bool) :
    (classify draft answer capReached).round = draft.round ∧
      (classify draft answer capReached).status.active = true ∧
      (classify draft answer capReached).spec = (if answer.result.success then specOf answer.result else []) ∧
      ∃ content, (classify draft answer capReached).conversation = draft.conversation ++ [⟨.assistant, content⟩] := by
  simp only [classify]
  generalize (if answer.result.success = true then answer.questions else []) = questions
  by_cases hq : questions ≠ [] ∧ capReached = false
  · rw [if_pos hq]
    exact ⟨rfl, rfl, rfl, _, rfl⟩
  · rw [if_neg hq]
    exact ⟨rfl, rfl, rfl, _, rfl⟩

/-- An answer leaves every object loaded before it behind. -/
theorem older_answered {draft row loaded : TaskSpecDraft} (hsame : Older draft row) (hround : row.round = draft.round)
    (h : Older loaded row) (r : TaskSpecDraft) (hr : r.inputText = row.inputText ∧ r.ownerId = row.ownerId)
    (content : String) (now : Timestamp) (answer : Classified) (maxRounds : Nat) :
    Older loaded (flush r (answered draft content now answer maxRounds)) := by
  have hconv : draft.conversation = row.conversation := by
    rcases hsame.2.2 with ⟨-, hconv, -⟩ | ⟨hlt, -⟩
    · exact hconv
    · omega
  obtain ⟨hr', -, -, _, hc'⟩ := classify_spec { draft with
    conversation := draft.conversation ++ [⟨.user, content⟩]
    round := draft.round + 1
    expiresAt := now + draftTtl } answer (decide (max 1 maxRounds ≤ draft.round + 1))
  have hnew : (flush r (answered draft content now answer maxRounds)).round = draft.round + 1 ∧
      (flush r (answered draft content now answer maxRounds)).conversation.length = draft.conversation.length + 2 := by
    refine ⟨hr', ?_⟩
    show (classify _ _ _).conversation.length = _
    rw [hc']
    simp
  refine ⟨h.1.trans hr.1.symm, h.2.1.trans hr.2.symm, .inr ?_⟩
  rw [hnew.1, hnew.2, hconv]
  rcases h.2.2 with ⟨hr', hc, -⟩ | ⟨hr', hc⟩
  · rw [hc]
    omega
  · omega

theorem answered_active (draft : TaskSpecDraft) (content : String) (now : Timestamp) (answer : Classified)
    (maxRounds : Nat) : (answered draft content now answer maxRounds).status.active = true :=
  (classify_spec ..).2.1

theorem locked_commit (s : St) (id : Nat) (row : Option TaskSpecDraft) (phase : Phase) :
    Locked (s.commit id row phase) := by
  intro id' written hw
  cases hw

theorem past_commit {s : St} (h : Past s) {id : Nat} {phase : Phase} (hnew : phase.past = false)
    (row : Option TaskSpecDraft) : Past (s.commit id row phase) := by
  intro id' hpast
  by_cases hid : id' = id
  · subst hid
    simp [St.commit, hnew] at hpast
  · exact h id' (by simpa [St.commit, hid] using hpast)

/-- A request that has ended the draft is past it. -/
theorem past_ended {s : St} (h : Past s) {id : Nat} {status : DraftStatus} {phase : Phase} {row : Option TaskSpecDraft}
    {ended : List (Nat × DraftStatus)} (hended : ∀ p ∈ s.ended, p ∈ ended) (hid : (id, status) ∈ ended) :
    Past { s.commit id row phase with ended := ended } := by
  intro id' hpast
  by_cases hid' : id' = id
  · subst hid'
    exact ⟨status, hid⟩
  · obtain ⟨status', hmem⟩ := h id' (by simpa [St.commit, hid'] using hpast)
    exact ⟨status', hended _ hmem⟩

theorem inv_step {s s' : St} {e : Ev} (hi : Inv s) (h : step fromisoformat s e = some s') : Inv s' := by
  cases step_does h with
  | loaded hrow hidle =>
    refine ⟨locked_to hi.locked fun written hw => ?_, held_to hi.held rfl, hi.live, past_to hi.past rfl,
      loaded_to hi.loaded fun draft row hd hr => ?_⟩
    · have := hi.locked _ written hw
      rw [hidle] at this
      exact this.elim
    · cases hd
      rw [hrow] at hr
      cases hr
      exact .refl _
  | @raised _ id _ hfree =>
    refine ⟨locked_to hi.locked fun written hw => ?_, held_to hi.held rfl, hi.live, past_to hi.past rfl,
      loaded_to hi.loaded fun draft row hd _ => nomatch hd⟩
    have hholds := hi.locked id written hw
    cases hphase : s.phase id <;> rw [hphase] at hfree hholds
    case written => cases hfree
    case noted => cases hfree
    case swept => cases hfree
    case deleted => cases hfree
    all_goals exact hholds.elim
  | @wrote id op draft row hloaded hrow hm hwriter =>
    refine ⟨?_, held_write hi.held hwriter, hi.live, past_to hi.past rfl,
      loaded_to hi.loaded fun draft' row' hd hr => ?_⟩
    · intro id' written hw
      cases hw
      simpa [St.to] using ⟨row, hrow, hm, rfl⟩
    · cases hd
      exact hi.loaded id draft row' (by rw [hloaded]; rfl) hr
  | @answered id holder maxRounds content draft row now answer hphase hwriter =>
    obtain ⟨rfl, hholds⟩ := hi.holds id (by rw [hphase]; rfl) hwriter
    rw [hphase] at hholds
    obtain ⟨r, hrow, ⟨hstatus, hround⟩, hwritten⟩ := hholds
    cases hwritten
    have hsame := hi.loaded holder draft r (by rw [hphase]; rfl) hrow
    have hactive : s.ended = [] := (hi.live.1 r hrow).mp (by rw [hstatus]; rfl)
    refine ⟨locked_commit _ _ _ _, held_commit hi.held hwriter rfl, ⟨fun row' hr => ?_, nofun⟩, past_commit hi.past rfl _,
      loaded_commit hi.loaded rfl hrow fun loaded ho => older_answered hsame hround ho _ ⟨rfl, rfl⟩ ..⟩
    cases hr
    exact iff_of_true (answered_active ..) hactive
  | @confirmed id holder extraTags draft row claimed profiles fields hphase hwriter hrow hfields =>
    obtain ⟨rfl, hholds⟩ := hi.holds id (by rw [hphase]; rfl) hwriter
    rw [hphase] at hholds
    obtain ⟨r, hr, hactive, hwritten⟩ := hholds
    cases hwritten
    refine ⟨locked_commit _ _ _ _, held_commit hi.held hwriter rfl, ⟨fun row' hr' => ?_, fun _ => by simp⟩,
      past_ended hi.past (fun p hp => List.mem_cons_of_mem _ hp) (List.mem_cons_self ..),
      loaded_commit hi.loaded rfl hr fun loaded ho => ho⟩
    cases hr'
    exact iff_of_false (by simp [Op.write, DraftStatus.active]) (by simp)
  | @cancelled id holder draft row hphase hwriter =>
    obtain ⟨rfl, hholds⟩ := hi.holds id (by rw [hphase]; rfl) hwriter
    rw [hphase] at hholds
    obtain ⟨r, hr, -, hwritten⟩ := hholds
    cases hwritten
    refine ⟨locked_commit _ _ _ _, held_commit hi.held hwriter rfl, ⟨fun row' hr' => ?_, fun _ => by simp⟩,
      past_ended hi.past (fun p hp => List.mem_cons_of_mem _ hp) (List.mem_cons_self ..),
      loaded_commit hi.loaded rfl hr fun loaded ho => ho⟩
    cases hr'
    exact iff_of_false (by simp [Op.write, DraftStatus.active]) (by simp)
  | @noting id task row hcreated hrow hwriter =>
    refine ⟨?_, held_write hi.held hwriter, hi.live, ?_, loaded_to hi.loaded fun draft row' hd _ => nomatch hd⟩
    · intro id' written hw
      cases hw
      simpa [St.to] using ⟨row, hrow, rfl⟩
    · intro id' hpast
      by_cases hid : id' = id
      · subst hid
        exact hi.past id' (by rw [hcreated]; rfl)
      · exact hi.past id' (by simpa [St.to, hid] using hpast)
  | @noted id holder task row hphase hwriter =>
    obtain ⟨rfl, hholds⟩ := hi.holds id (by rw [hphase]; rfl) hwriter
    rw [hphase] at hholds
    obtain ⟨r, hr, hwritten⟩ := hholds
    cases hwritten
    obtain ⟨status, hmem⟩ := hi.past holder (by rw [hphase]; rfl)
    refine ⟨locked_commit _ _ _ _, held_commit hi.held hwriter rfl, ⟨fun row' hr' => ?_, nofun⟩,
      past_ended hi.past (fun p hp => hp) hmem, loaded_commit hi.loaded rfl hr fun loaded ho => ho⟩
    cases hr'
    exact hi.live.1 r hr
  | swept hidle =>
    refine ⟨locked_to hi.locked fun written hw => ?_, held_to hi.held rfl, hi.live, past_to hi.past rfl,
      loaded_to hi.loaded fun draft row hd _ => nomatch hd⟩
    have := hi.locked _ written hw
    rw [hidle] at this
    exact this.elim
  | @sweeping id now row hidle hrow hexpired hwriter =>
    refine ⟨?_, held_write hi.held hwriter, hi.live, past_to hi.past rfl,
      loaded_to hi.loaded fun draft row' hd _ => nomatch hd⟩
    intro id' written hw
    cases hw
    simpa [St.to] using ⟨row, hrow, hexpired.1, rfl⟩
  | passed hswept =>
    refine ⟨locked_to hi.locked fun written hw => ?_, held_to hi.held rfl, hi.live, past_to hi.past rfl,
      loaded_to hi.loaded fun draft row hd _ => nomatch hd⟩
    have := hi.locked _ written hw
    rw [hswept] at this
    obtain ⟨r, hr, hactive, hwritten⟩ := this
    exact ⟨r, hr, .inl ⟨hactive, hwritten⟩⟩
  | @deleting id now row hswept hseen hforgotten hown =>
    refine ⟨?_, ?_, hi.live, past_to hi.past rfl, loaded_to hi.loaded fun draft row' hd _ => nomatch hd⟩
    · intro id' written hw
      cases hw
      have hrow : ∃ r, s.row = some r ∧ (r.status.active = true ∨ r.status = .abandoned) := by
        unfold St.seen at hseen
        cases hwriter : s.writer with
        | none =>
          rw [hwriter] at hseen
          exact ⟨row, hseen, .inr hforgotten.1⟩
        | some w =>
          obtain ⟨holder, written⟩ := w
          obtain rfl := hown holder written hwriter
          have hholds := hi.locked _ _ hwriter
          rw [hswept] at hholds
          obtain ⟨r, hr, hactive, -⟩ := hholds
          exact ⟨r, hr, .inl hactive⟩
      obtain ⟨r, hr, hstatus⟩ := hrow
      simpa [St.to] using ⟨r, hr, .inr ⟨hstatus, rfl⟩⟩
    · intro id' hheld
      by_cases hid : id' = id
      · subst hid
        simp [St.to, Phase.held] at hheld
      · obtain ⟨written, hw⟩ := hi.held id' (by simpa [St.to, hid] using hheld)
        exact absurd (hown _ _ hw) hid
  | @unswept id hdeleted hfree =>
    exact ⟨locked_to hi.locked fun written hw => absurd hw (hfree written), held_to hi.held rfl, hi.live,
      past_to hi.past rfl, loaded_to hi.loaded fun draft row hd _ => nomatch hd⟩
  | @sweptOver id written hdeleted hwriter =>
    have hholds := hi.locked _ _ hwriter
    rw [hdeleted] at hholds
    obtain ⟨r, hr, hwritten⟩ := hholds
    have hended : ∀ p ∈ s.ended, p ∈ (if s.row.any (·.status.active) then (id, .abandoned) :: s.ended else s.ended) := by
      intro p hp
      split
      · exact List.mem_cons_of_mem _ hp
      · exact hp
    have hnew : (if s.row.any (·.status.active) then (id, .abandoned) :: s.ended else s.ended) ≠ [] := by
      rw [hr]
      split
      · simp
      · rename_i hinactive
        intro hnil
        exact hinactive ((hi.live.1 r hr).mpr hnil)
    refine ⟨locked_commit _ _ _ _, held_commit hi.held hwriter rfl, ⟨fun row' hr' => ?_, fun _ => hnew⟩, ?_, ?_⟩
    · rcases hwritten with ⟨-, rfl⟩ | ⟨-, rfl⟩
      · cases hr'
        exact iff_of_false (by simp [DraftStatus.active]) hnew
      · cases hr'
    · intro id' hpast
      by_cases hid : id' = id
      · subst hid
        simp [St.commit, Phase.past] at hpast
      · obtain ⟨status, hmem⟩ := hi.past id' (by simpa [St.commit, hid] using hpast)
        exact ⟨status, hended _ hmem⟩
    · rcases hwritten with ⟨-, rfl⟩ | ⟨-, rfl⟩
      · exact loaded_commit hi.loaded rfl hr fun loaded ho => ho
      · intro id' draft row _ hrow
        cases hrow
  | @failed id =>
    refine ⟨?_, ?_, hi.live, past_to hi.past rfl, loaded_to hi.loaded fun draft row hd _ => nomatch hd⟩
    · intro id' written hw
      obtain ⟨hw, hne⟩ := Option.filter_eq_some_iff.mp hw
      have hne : id' ≠ id := by simpa using hne
      simpa [St.to, hne] using hi.locked id' written hw
    · intro id' hheld
      by_cases hid : id' = id
      · subst hid
        simp [St.to, Phase.held] at hheld
      · obtain ⟨written, hw⟩ := hi.held id' (by simpa [St.to, hid] using hheld)
        exact ⟨written, Option.filter_eq_some_iff.mpr ⟨hw, by simpa using hid⟩⟩

theorem start_inv (inputText owner : String) (now : Timestamp) (answer : Classified) :
    Inv (start inputText owner now answer) := by
  refine ⟨?_, ?_, ⟨fun row hrow => ?_, nofun⟩, ?_, ?_⟩
  · intro id written hw
    cases hw
  · intro id hheld
    cases hheld
  · cases hrow
    exact iff_of_true (classify_spec ..).2.1 rfl
  · intro id hpast
    cases hpast
  · intro id draft row hd _
    cases hd

/-! ## The draft ends once -/

theorem EndsOnce.unconfirmed {s : St} (h : EndsOnce s) {row : TaskSpecDraft} (hrow : s.row = some row)
    (hstatus : row.status ≠ .confirmed) : s.tasks = [] := by
  by_contra hne
  obtain ⟨row', hrow', hconfirmed⟩ := h.confirmed.mpr hne
  rw [hrow] at hrow'
  cases hrow'
  exact hstatus hconfirmed

theorem endsOnce_to {s : St} (h : EndsOnce s) {id : Nat} {phase : Phase} (hphase : phase ≠ .reported)
    {writer : Option (Nat × Option TaskSpecDraft)} : EndsOnce { s.to id phase with writer := writer } := by
  refine ⟨h.once, h.final, h.one, h.confirmed, fun id' hreported => ?_⟩
  by_cases hid : id' = id
  · subst hid
    exact absurd (by simpa [St.to] using hreported) hphase
  · exact h.reported id' (by simpa [St.to, hid] using hreported)

/-- A commit by which the draft ends. -/
theorem endsOnce_commit {s : St} (h : EndsOnce s) (hopen : s.ended = []) {id : Nat} {status : DraftStatus} {phase : Phase}
    {row : Option TaskSpecDraft} {tasks : List Created} (hstatus : ∀ r, row = some r → r.status = status)
    (hone : tasks.length ≤ 1) (hconfirmed : (∃ r, row = some r ∧ r.status = .confirmed) ↔ tasks ≠ []) :
    EndsOnce { s.commit id row phase with tasks := tasks, ended := [(id, status)] } := by
  refine ⟨Nat.le_refl _, ?_, hone, hconfirmed, fun id' hreported => ?_⟩
  · intro p hp r hr
    obtain rfl := List.mem_singleton.mp hp
    exact hstatus r hr
  · by_cases hid : id' = id
    · subst hid
      exact ⟨status, List.mem_singleton.mpr rfl⟩
    · obtain ⟨status', hmem⟩ := h.reported id' (by simpa [St.commit, hid] using hreported)
      rw [hopen] at hmem
      cases hmem

theorem step_endsOnce {s s' : St} {e : Ev} (hi : Inv s) (h : step fromisoformat s e = some s') (hp : EndsOnce s) :
    EndsOnce s' ↔ OnActive s e := by
  cases step_does h with
  | loaded => exact iff_of_true (endsOnce_to hp (by nofun)) trivial
  | @raised e _ he _ =>
    refine iff_of_true (endsOnce_to hp (by nofun)) ?_
    cases e with
    | commitCancel id => cases he
    | _ => trivial
  | wrote => exact iff_of_true (endsOnce_to hp (by nofun)) trivial
  | noting => exact iff_of_true (endsOnce_to hp (by nofun)) trivial
  | swept => exact iff_of_true (endsOnce_to hp (by nofun)) trivial
  | sweeping => exact iff_of_true (endsOnce_to hp (by nofun)) trivial
  | passed => exact iff_of_true (endsOnce_to hp (by nofun)) trivial
  | deleting => exact iff_of_true (endsOnce_to hp (by nofun)) trivial
  | unswept => exact iff_of_true (endsOnce_to hp (by nofun)) trivial
  | failed => exact iff_of_true (endsOnce_to hp (by nofun)) trivial
  | @answered id holder maxRounds content draft row now answer hphase hwriter =>
    obtain ⟨rfl, hholds⟩ := hi.holds id (by rw [hphase]; rfl) hwriter
    rw [hphase] at hholds
    obtain ⟨r, hrow, ⟨hstatus, -⟩, hwritten⟩ := hholds
    cases hwritten
    have hopen : s.ended = [] := (hi.live.1 r hrow).mp (by rw [hstatus]; rfl)
    have htasks := hp.unconfirmed hrow (by rw [hstatus]; nofun)
    have hactive := answered_active draft content now answer maxRounds
    refine iff_of_true ⟨hp.once, ?_, hp.one, ?_, ?_⟩ trivial
    · intro p hmem
      have hmem : p ∈ s.ended := hmem
      rw [hopen] at hmem
      cases hmem
    · refine iff_of_false ?_ (fun hne => hne htasks)
      intro hconfirmed
      obtain ⟨row', hr, hc⟩ := hconfirmed
      cases hr
      have hc : (answered draft content now answer maxRounds).status = .confirmed := hc
      rw [hc] at hactive
      cases hactive
    · intro id' hreported
      by_cases hid : id' = holder
      · subst hid
        simp [St.commit] at hreported
      · exact hp.reported id' (by simpa [St.commit, hid] using hreported)
  | @confirmed id holder extraTags draft row claimed profiles fields hphase hwriter hrow hfields =>
    obtain ⟨rfl, hholds⟩ := hi.holds id (by rw [hphase]; rfl) hwriter
    rw [hphase] at hholds
    obtain ⟨r, hr, hactive, hwritten⟩ := hholds
    cases hwritten
    have hopen : s.ended = [] := (hi.live.1 r hr).mp hactive
    have htasks := hp.unconfirmed hr (by intro hc; rw [Matches, hc] at hactive; cases hactive)
    refine iff_of_true ?_ trivial
    rw [hopen]
    refine endsOnce_commit hp hopen (fun row' hr' => ?_) (by simp [htasks]) (iff_of_true ⟨_, rfl, rfl⟩ (by simp))
    cases hr'
    rfl
  | @cancelled id holder draft row hphase hwriter =>
    obtain ⟨rfl, hholds⟩ := hi.holds id (by rw [hphase]; rfl) hwriter
    rw [hphase] at hholds
    obtain ⟨r, hr, -, hwritten⟩ := hholds
    cases hwritten
    by_cases hactive : r.status.active = true
    · have hopen : s.ended = [] := (hi.live.1 r hr).mp hactive
      have htasks := hp.unconfirmed hr (by intro hc; rw [hc] at hactive; cases hactive)
      refine iff_of_true ?_ fun row' hr' => ?_
      · rw [hopen]
        refine endsOnce_commit hp hopen (fun row' hr' => ?_) hp.one (iff_of_false ?_ fun hne => hne htasks)
        · cases hr'
          rfl
        · intro hconfirmed
          obtain ⟨row', hr', hc⟩ := hconfirmed
          cases hr'
          cases hc
      · rw [hr] at hr'
        cases hr'
        exact hactive
    · refine iff_of_false ?_ fun hon => hactive (hon r hr)
      intro hp'
      have hne : s.ended ≠ [] := fun hnil => hactive ((hi.live.1 r hr).mpr hnil)
      have hlen := List.length_pos_iff.mpr hne
      have honce : s.ended.length + 1 ≤ 1 := hp'.once
      omega
  | @noted id holder task row hphase hwriter =>
    obtain ⟨rfl, hholds⟩ := hi.holds id (by rw [hphase]; rfl) hwriter
    rw [hphase] at hholds
    obtain ⟨r, hr, hwritten⟩ := hholds
    cases hwritten
    refine iff_of_true ⟨hp.once, ?_, hp.one, ?_, ?_⟩ trivial
    · intro p hmem row' hr'
      cases hr'
      exact hp.final p hmem r hr
    · refine Iff.trans ?_ hp.confirmed
      rw [hr]
      simp [St.commit]
    · intro id' hreported
      by_cases hid : id' = holder
      · subst hid
        exact hi.past id' (by rw [hphase]; rfl)
      · exact hp.reported id' (by simpa [St.commit, hid] using hreported)
  | @sweptOver id written hdeleted hwriter =>
    have hholds := hi.locked _ _ hwriter
    rw [hdeleted] at hholds
    obtain ⟨r, hr, hwritten⟩ := hholds
    have hne : r.status ≠ .confirmed := by
      intro hc
      rcases hwritten with ⟨hactive, -⟩ | ⟨hactive | habandoned, -⟩
      · rw [hc] at hactive
        cases hactive
      · rw [hc] at hactive
        cases hactive
      · rw [hc] at habandoned
        cases habandoned
    have htasks := hp.unconfirmed hr hne
    have hrow' : ∀ row', written = some row' → row'.status = .abandoned := by
      intro row' hw
      rcases hwritten with ⟨-, rfl⟩ | ⟨-, rfl⟩
      · cases hw
        rfl
      · cases hw
    have hunconfirmed : (∃ row', written = some row' ∧ row'.status = .confirmed) ↔ s.tasks ≠ [] := by
      refine iff_of_false ?_ fun hne => hne htasks
      intro hconfirmed
      obtain ⟨row', hw, hc⟩ := hconfirmed
      rw [hrow' row' hw] at hc
      cases hc
    refine iff_of_true ?_ trivial
    by_cases hactive : r.status.active = true
    · have hopen : s.ended = [] := (hi.live.1 r hr).mp hactive
      rw [hr, hopen]
      simp only [Option.any_some, hactive, if_true]
      exact endsOnce_commit hp hopen hrow' hp.one hunconfirmed
    · have hgone : written = none := by
        rcases hwritten with ⟨hact, -⟩ | ⟨-, hgone⟩
        · exact absurd hact hactive
        · exact hgone
      have hkeep : (if s.row.any (·.status.active) then (id, .abandoned) :: s.ended else s.ended) = s.ended := by
        rw [hr]
        exact if_neg hactive
      rw [hkeep]
      refine ⟨hp.once, ?_, hp.one, hunconfirmed, ?_⟩
      · intro p _ row' hr'
        have hr' : written = some row' := hr'
        rw [hgone] at hr'
        cases hr'
      · intro id' hreported
        by_cases hid : id' = id
        · subst hid
          simp [St.commit] at hreported
        · exact hp.reported id' (by simpa [St.commit, hid] using hreported)

theorem start_endsOnce (inputText owner : String) (now : Timestamp) (answer : Classified) :
    EndsOnce (start inputText owner now answer) := by
  have hactive : (begin inputText owner now answer).status.active = true := (classify_spec ..).2.1
  refine ⟨Nat.zero_le _, nofun, Nat.zero_le _, iff_of_false ?_ fun hne => hne rfl, nofun⟩
  intro hconfirmed
  obtain ⟨row, hrow, hc⟩ := hconfirmed
  cases hrow
  rw [hc] at hactive
  cases hactive

variable (fromisoformat) in
/-- The draft ends once all along exactly the runs in which every UPDATE of a `cancel` finds
    it active. -/
theorem ends_once_iff (inputText owner : String) (now : Timestamp) (answer : Classified) (es : List Ev) :
    (∀ n s, (machine fromisoformat).exec (start inputText owner now answer) (es.take n) = some s → EndsOnce s) ↔
      ∀ p ∈ (machine fromisoformat).trace (start inputText owner now answer) es, OnActive p.1 p.2 := by
  have hstep : ∀ s e s', Inv s → True → (machine fromisoformat).step s e = some s' →
      Inv s' ∧ (EndsOnce s → (EndsOnce s' ↔ OnActive s e)) := by
    intro s e s' hi _ hst
    exact ⟨inv_step hi hst, step_endsOnce hi hst⟩
  rw [Machine.throughout_iff hstep (start_inv inputText owner now answer) fun _ _ => trivial]
  exact and_iff_right (start_endsOnce inputText owner now answer)

/-! ## A task contains the answers -/

/-- An object with the row's round is the row's version. -/
theorem builtFrom_iff {draft row : TaskSpecDraft} (hold : Older draft row) {profiles : Profiles} {extraTags : List String}
    {fields : Fields} (hfields : resolvedFields fromisoformat profiles draft.intake draft.ownerId extraTags = some fields) :
    BuiltFrom fromisoformat ⟨draft, row, extraTags, profiles, fields⟩ ↔ row.round = draft.round := by
  obtain ⟨hinput, howner, hround⟩ := hold
  constructor
  · intro h
    rcases hround with ⟨hr, -, -⟩ | ⟨-, hlt⟩
    · exact hr.symm
    · have hconv : draft.conversation = row.conversation := h.conversation
      rw [hconv] at hlt
      exact absurd hlt (Nat.lt_irrefl _)
  · intro h
    rcases hround with ⟨-, hconv, hspec⟩ | ⟨hlt, -⟩
    · refine ⟨hconv, hspec, ?_⟩
      have hintake : draft.intake = row.intake := by
        unfold TaskSpecDraft.intake
        rw [hinput, hspec, hconv]
      show resolvedFields fromisoformat profiles row.intake row.ownerId extraTags = some fields
      rw [← hintake, ← howner, hfields]
    · omega

theorem step_builtFrom {s s' : St} {e : Ev} (hi : Inv s) (h : step fromisoformat s e = some s')
    (hp : ∀ task ∈ s.tasks, BuiltFrom fromisoformat task) :
    (∀ task ∈ s'.tasks, BuiltFrom fromisoformat task) ↔ Unanswered s e := by
  cases step_does h with
  | @confirmed id holder extraTags draft row claimed profiles fields hphase hwriter hrow hfields =>
    have hdraft : (s.phase id).draft = some draft := by rw [hphase]; rfl
    have hnew := builtFrom_iff (hi.loaded id draft claimed hdraft hrow) hfields
    constructor
    · intro hall draft' row' hd hr
      rw [hdraft] at hd
      rw [hrow] at hr
      cases hd
      cases hr
      exact hnew.mp (hall _ (List.mem_append_right _ (List.mem_singleton.mpr rfl)))
    · intro hun task hmem
      rcases List.mem_append.mp hmem with hmem | hmem
      · exact hp task hmem
      · obtain rfl := List.mem_singleton.mp hmem
        exact hnew.mpr (hun draft claimed hdraft hrow)
  | @raised e _ he _ =>
    refine iff_of_true hp ?_
    cases e with
    | commitConfirm id profiles => cases he
    | _ => trivial
  | _ => exact iff_of_true hp trivial

variable (fromisoformat) in
/-- Every task is built from the version of the draft that was confirmed all along exactly the
    runs in which no answer comes between the load of a `confirm` that creates a task and its
    claim. -/
theorem contains_answers_iff (inputText owner : String) (now : Timestamp) (answer : Classified) (es : List Ev) :
    (∀ n s, (machine fromisoformat).exec (start inputText owner now answer) (es.take n) = some s →
        ∀ task ∈ s.tasks, BuiltFrom fromisoformat task) ↔
      ∀ p ∈ (machine fromisoformat).trace (start inputText owner now answer) es, Unanswered p.1 p.2 := by
  have hstep : ∀ s e s', Inv s → True → (machine fromisoformat).step s e = some s' →
      Inv s' ∧ ((∀ task ∈ s.tasks, BuiltFrom fromisoformat task) →
        ((∀ task ∈ s'.tasks, BuiltFrom fromisoformat task) ↔ Unanswered s e)) := by
    intro s e s' hi _ hst
    exact ⟨inv_step hi hst, step_builtFrom hi hst⟩
  rw [Machine.throughout_iff (P := fun s => ∀ task ∈ s.tasks, BuiltFrom fromisoformat task) hstep
    (start_inv inputText owner now answer) fun _ _ => trivial]
  exact and_iff_right fun task hmem => absurd hmem List.not_mem_nil

/-- Where the classifier has failed, the description is the input with every answer. -/
theorem failed_description {task : Created} (h : BuiltFrom fromisoformat task) (hspec : task.claimed.spec = []) :
    task.fields.description = some (composedDescription task.claimed.intake) := by
  have hfields := h.fields
  simp only [resolvedFields, Option.bind_eq_some_iff, Option.map_eq_some_iff] at hfields
  obtain ⟨title, -, description, hdescription, category, -, repeatInterval, -, profileId, -, hfields⟩ := hfields
  rw [← hfields]
  rw [← hdescription, textOr]
  simp [TaskSpecDraft.intake, hspec, field, Json.lookup, Json.truthy]

end Open

/-! ## Two runs -/

def unreached : Classified := ⟨failed "Tidy up the report..." .requestFailed, []⟩

def asking : Classified :=
  ⟨⟨"Tidy up", true, .immediate, .null, .null, .null, none, none, none⟩, [⟨"which", "Which report?"⟩]⟩

/-- A `cancel` that has loaded the draft before it was confirmed abandons it all the same, and
    reports success beside the task that is running. -/
theorem a_cancel_overwrites :
    ∃ s, (machine fun _ => none).exec (start "Tidy up the report" "ada@example.com" 0 unreached)
        [.load 0 "ada@example.com" .cancel 1, .load 1 "ada@example.com" (.confirm []) 2, .update 1,
          .commitConfirm 1 [], .update 0, .commitCancel 0] = some s ∧
      s.row.map (·.status) = some .abandoned ∧ s.tasks.length = 1 ∧ s.phase 0 = .reported ∧
      s.ended = [(0, .abandoned), (1, .confirmed)] := by
  refine ⟨_, rfl, ?_, ?_, ?_, ?_⟩
  · rfl
  · rfl
  · rfl
  · rfl

/-- A `confirm` that has loaded the draft while an answer was being classified creates its
    task without the answer. -/
theorem a_confirm_drops_an_answer :
    ∃ s, (machine fun _ => none).exec (start "Tidy up the report" "ada@example.com" 0 asking)
        [.load 0 "ada@example.com" (.answer [("which", .str "the annual one")]) 1, .update 0,
          .load 1 "ada@example.com" (.confirm []) 2, .commitAnswer 0 3 unreached 2, .update 1,
          .commitConfirm 1 []] = some s ∧
      s.row.map (fun row => answeredClarifications row.conversation) = some ["Which report? -> the annual one"] ∧
      s.tasks.map (·.fields.description) = [some "Tidy up the report"] := by
  refine ⟨_, rfl, ?_, ?_⟩
  · rfl
  · rfl

end Errand.Server.Drafts

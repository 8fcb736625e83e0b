import Errand.Server.Auth
import Errand.Server.TaskCreation

/-
  Errand.Server.TaskEdits — `PATCH /api/tasks/{id}` (`update_task`, errand/main.py).

  Every field of the body may be missing. A date that cannot be read clears its column. The
  row's own UPDATE, and with it `updated_at`, comes only if a column changes; a reorder
  inside a column moves the rows between. `uuid.UUID` of a profile id is open.

  Proved:
  - `updateTask_rows`: an edit that is accepted replaces the row of a task that does not run
    by `edited`, and leaves every other row its status and its time.
-/

namespace Errand.Server.TaskEdits

open Errand.Server.Tasks Errand.Server.TaskCreation
open Errand.Server.Auth (HttpError)

structure TaskUpdate where
  title : Option String
  description : Option String
  status : Option Status
  position : Option Int
  tags : Option (List String)
  category : Option Category
  executeAt : Option String
  repeatInterval : Option String
  repeatUntil : Option String
  output : Option String
  profileId : Option String
  deriving DecidableEq, Repr

def noUpdate : TaskUpdate := ⟨none, none, none, none, none, none, none, none, none, none, none⟩

/-- `_next_position` with `exclude_id`. -/
def nextPositionExcept (db : Db) (status : Status) (id : Nat) : Int :=
  let rows := ((List.range db.nextId).filter (· ≠ id)).filterMap db.get
  match ((rows.filter (·.status = status)).map (·.position)).max? with
  | none => 1
  | some top => top + 1

/-- An UPDATE of many rows. -/
def mapRows (db : Db) (f : Nat → Task → Task) : Db where
  nextId := db.nextId
  get j := (db.get j).map (f j)
  fresh := by
    intro j hj
    rw [db.fresh j hj]
    rfl

/-- A row of the column a task is moved within, from `oldPos` to `newPos`. -/
def makeRoom (now : Timestamp) (status : Status) (oldPos newPos : Int) (t : Task) : Task :=
  if t.status ≠ status then t
  else if newPos < oldPos then
    if newPos ≤ t.position ∧ t.position < oldPos then { t with position := t.position + 1, updatedAt := now } else t
  else if oldPos < t.position ∧ t.position ≤ newPos then { t with position := t.position - 1, updatedAt := now }
  else t

section Open

variable (fromisoformat : String → Option Timestamp) (uuid : String → Option Nat)

/-- What a date field makes of the column. -/
def dateField (body : Option String) (current : Option Timestamp) : Option Timestamp :=
  match body with
  | none => current
  | some s => fromisoformat s

def profileField (profiles : Profiles) (body : Option String) (current : Option Nat) :
    Except HttpError (Option Nat) :=
  match body with
  | none => .ok current
  | some s =>
    if s = "null" || s = "" then .ok none
    else
      match uuid s with
      | none => .error ⟨422, "Invalid profile_id format"⟩
      | some pid => if profiles.any (·.2 = pid) then .ok (some pid) else .error ⟨422, "Task profile not found"⟩

/-- The task as the body leaves it. -/
def edited (now : Timestamp) (db : Db) (id : Nat) (t : Task) (body : TaskUpdate) (profileId : Option Nat)
    (email : Option String) : Task :=
  let status := body.status.getD t.status
  let t' : Task :=
    { t with
      title := body.title.getD t.title
      description := body.description.or t.description
      status := status
      position := if status ≠ t.status then nextPositionExcept db status id else body.position.getD t.position
      output := body.output.or t.output
      category := (body.category.map Category.text).or t.category
      executeAt := dateField fromisoformat body.executeAt t.executeAt
      repeatInterval := body.repeatInterval.or t.repeatInterval
      repeatUntil := dateField fromisoformat body.repeatUntil t.repeatUntil
      profileId := profileId
      updatedBy := email }
  { t' with updatedAt := if t' = t then t.updatedAt else now, tags := body.tags.getD t.tags }

def updateTask (now : Timestamp) (db : Db) (profiles : Profiles) (id : Nat) (body : TaskUpdate)
    (email : Option String) : Except HttpError Db :=
  match db.get id with
  | none => .error ⟨404, "Task not found"⟩
  | some t =>
    if t.status = .running then .error ⟨409, "Cannot edit a running task"⟩
    else
      (profileField uuid profiles body.profileId t.profileId).map fun profileId =>
        mapRows db fun j row =>
          if j = id then edited fromisoformat now db id t body profileId email
          else if body.status.getD t.status ≠ t.status then row
          else makeRoom now t.status t.position (body.position.getD t.position) row

/-! ## What an edit changes -/

theorem makeRoom_kept (now : Timestamp) (status : Status) (oldPos newPos : Int) (t : Task) :
    (makeRoom now status oldPos newPos t).status = t.status ∧
      (makeRoom now status oldPos newPos t).executeAt = t.executeAt := by
  unfold makeRoom
  by_cases hs : t.status ≠ status
  · rw [if_pos hs]
    exact ⟨rfl, rfl⟩
  · rw [if_neg hs]
    by_cases hup : newPos < oldPos
    · rw [if_pos hup]
      by_cases h : newPos ≤ t.position ∧ t.position < oldPos
      · rw [if_pos h]
        exact ⟨rfl, rfl⟩
      · rw [if_neg h]
        exact ⟨rfl, rfl⟩
    · rw [if_neg hup]
      by_cases h : oldPos < t.position ∧ t.position ≤ newPos
      · rw [if_pos h]
        exact ⟨rfl, rfl⟩
      · rw [if_neg h]
        exact ⟨rfl, rfl⟩

variable {fromisoformat uuid}

theorem updateTask_rows {now : Timestamp} {db db' : Db} {profiles : Profiles} {id : Nat} {body : TaskUpdate}
    {email : Option String} (h : updateTask fromisoformat uuid now db profiles id body email = .ok db') :
    ∃ t profileId, db.get id = some t ∧ t.status ≠ .running ∧
      db'.get id = some (edited fromisoformat now db id t body profileId email) ∧
      ∀ j, j ≠ id → ∃ f : Task → Task, db'.get j = (db.get j).map f ∧
        ∀ row, (f row).status = row.status ∧ (f row).executeAt = row.executeAt := by
  unfold updateTask at h
  cases ht : db.get id with
  | none =>
    rw [ht] at h
    cases h
  | some t =>
    rw [ht] at h
    simp only at h
    by_cases hr : t.status = .running
    · rw [if_pos hr] at h
      cases h
    · rw [if_neg hr] at h
      cases hp : profileField uuid profiles body.profileId t.profileId with
      | error e =>
        rw [hp] at h
        cases h
      | ok profileId =>
        rw [hp] at h
        cases h
        refine ⟨t, profileId, rfl, hr, ?_, ?_⟩
        · simp [mapRows, ht]
        · intro j hj
          refine ⟨_, rfl, ?_⟩
          intro row
          simp only [if_neg hj]
          by_cases hs : body.status.getD t.status ≠ t.status
          · simp only [if_pos hs]
            exact ⟨trivial, trivial⟩
          · simp only [if_neg hs]
            exact makeRoom_kept ..

end Open

end Errand.Server.TaskEdits

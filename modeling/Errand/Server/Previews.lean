import Errand.Server.Drafts

/-
  Errand.Server.Previews — what a draft shows before it is confirmed (`draft_view` and
  `_resolved_fields`, errand/clarify.py), beside the task that comes of it.

  A spec holds any value under any key, as the classifier wrote it. The preview shows those
  values; `confirm` reads a date out of two of them and looks a profile up by a third. The
  draft that is confirmed is the one that was shown; the profiles are those of the
  confirmation.

  Proved:
  - `preview_is_what_runs`: the task has the title, the description, the category and the
    interval that were shown, the dates and the profile that were shown where they can be
    read and found, and no others; an immediate task is due when it is confirmed.
  - `an_immediate_task_is_given_a_time`: though the preview shows none.
  - `a_date_is_dropped`, `a_profile_is_dropped`: where it cannot be read, or found.
-/

namespace Errand.Server.Previews

open Errand.Lib Errand.Server.Tasks Errand.Server.TaskCreation Errand.Server.Drafts

/-- What `_resolved_fields` answers. -/
structure Preview where
  title : Json
  description : Json
  category : Category
  executeAt : Json
  repeatInterval : Json
  repeatUntil : Json
  profile : Json

/-- `value or default`. -/
def orText (value : Json) (default : String) : Json := if value.truthy then value else .str default

/-- `_resolved_fields`; none if the category is no key. -/
def resolved (draft : Draft) : Option Preview :=
  (categoryOf (Json.lookup "category" draft.spec)).map fun category =>
    { title := orText (field "title" draft.spec) (fallbackTitle draft.inputText)
      description := orText (field "description" draft.spec) (composedDescription draft)
      category := category
      executeAt := field "execute_at" draft.spec
      repeatInterval := field "repeat_interval" draft.spec
      repeatUntil := field "repeat_until" draft.spec
      profile := field "profile" draft.spec }

structure DraftView where
  status : DraftStatus
  input : String
  questions : List Question
  questionsUnresolved : Bool
  specPreview : Preview
  round : Nat
  maxRounds : Nat
  conversation : List Turn
  expiresAt : Timestamp
  resolvedTaskId : Option Nat

def draftView (draft : TaskSpecDraft) (rounds : Nat) : Option DraftView :=
  (resolved draft.intake).map fun preview =>
    { status := draft.status
      input := draft.inputText
      questions := draft.questions.getD []
      questionsUnresolved := draft.questionsUnresolved
      specPreview := preview
      round := draft.round
      maxRounds := rounds
      conversation := draft.conversation
      expiresAt := draft.expiresAt
      resolvedTaskId := draft.resolvedTaskId }

/-! ## What a preview promises -/

section Open

variable (fromisoformat : String → Option Timestamp)

/-- The date a shown value is: none at all where it is empty, and nothing where it cannot be
    read. -/
def shownDate : Json → Option (Option Timestamp)
  | .str s => if s.isEmpty then some none else (fromisoformat s).map some
  | value => if value.truthy then none else some none

/-- The profile a shown value names, likewise. -/
def shownProfile (profiles : Profiles) : Json → Option (Option Nat)
  | .str s => if s.isEmpty then some none else (profileNamed profiles s).map some
  | value => if value.truthy then none else some none

/-- A task is what the preview shows, as far as that can be read and found. -/
structure Runs (now : Timestamp) (profiles : Profiles) (preview : Preview) (t : Task) : Prop where
  title : preview.title = .str t.title
  description : preview.description = textJson t.description
  category : t.category = some preview.category.text
  repeatInterval : preview.repeatInterval = textJson t.repeatInterval
  immediate : preview.category = .immediate → t.executeAt = some now
  executeAt : preview.category ≠ .immediate → ∀ date, shownDate fromisoformat preview.executeAt = some date →
    t.executeAt = date
  repeatUntil : ∀ date, shownDate fromisoformat preview.repeatUntil = some date → t.repeatUntil = date
  profile : ∀ id, shownProfile profiles preview.profile = some id → t.profileId = id

variable {fromisoformat}

theorem textOr_some {default text : String} {value : Json} (h : textOr default value = some text) :
    orText value default = .str text := by
  unfold textOr at h
  unfold orText
  split at h
  · rename_i htruthy
    rw [if_pos htruthy]
    cases value with
    | str s =>
      cases h
      rfl
    | _ => cases h
  · rename_i hfalsy
    rw [if_neg hfalsy]
    cases h
    rfl

theorem textColumn_some {value : Json} {text : Option String} (h : textColumn value = some text) :
    value = textJson text := by
  cases value with
  | null =>
    cases h
    rfl
  | str s =>
    cases h
    rfl
  | _ => cases h

theorem parseDatetime_shown {value : Json} {date : Option Timestamp} (h : shownDate fromisoformat value = some date) :
    parseDatetime fromisoformat value = date := by
  cases value with
  | str s =>
    simp only [shownDate, parseDatetime] at h ⊢
    split at h
    · rename_i hempty
      rw [if_pos hempty]
      exact Option.some.inj h
    · rename_i hempty
      rw [if_neg hempty]
      obtain ⟨time, htime, rfl⟩ := Option.map_eq_some_iff.mp h
      exact htime
  | _ =>
    simp only [shownDate] at h
    split at h
    · cases h
    · cases h
      rfl

theorem specProfile_shown {profiles : Profiles} {value : Json} {id id' : Option Nat}
    (h : specProfile profiles value = some id) (hshown : shownProfile profiles value = some id') : id = id' := by
  cases value with
  | str s =>
    have htruthy : (Json.str s).truthy = !s.isEmpty := rfl
    by_cases hempty : s.isEmpty = true
    · rw [specProfile, if_neg (by simp [htruthy, hempty])] at h
      rw [shownProfile, if_pos hempty] at hshown
      exact Option.some.inj (h.symm.trans hshown)
    · rw [specProfile, if_pos (by simp [htruthy, hempty])] at h
      rw [shownProfile, if_neg hempty] at hshown
      obtain ⟨found, hfound, rfl⟩ := Option.map_eq_some_iff.mp hshown
      exact (Option.some.inj h).symm.trans hfound
  | _ =>
    simp only [shownProfile] at hshown
    split at hshown
    · cases hshown
    · rename_i hfalsy
      rw [specProfile, if_neg hfalsy] at h
      exact Option.some.inj (h.symm.trans hshown)

theorem createTaskFromFields_runs {now : Timestamp} {profiles : Profiles} {preview : Preview} {f : Fields}
    (htitle : preview.title = .str f.title) (hdescription : preview.description = textJson f.description)
    (hcategory : f.category = preview.category) (hinterval : preview.repeatInterval = textJson f.repeatInterval)
    (hexecute : ∀ date, shownDate fromisoformat preview.executeAt = some date → f.executeAt = date)
    (huntil : ∀ date, shownDate fromisoformat preview.repeatUntil = some date → f.repeatUntil = date)
    (hprofile : ∀ id, shownProfile profiles preview.profile = some id → f.profileId = id) (db : Db) :
    ∃ t, createTaskFromFields now db profiles f = db.insert t ∧ Runs fromisoformat now profiles preview t := by
  refine ⟨_, rfl, ?_⟩
  by_cases himmediate : f.category = .immediate
  · rw [if_pos himmediate]
    refine ⟨htitle, hdescription, by rw [← hcategory]; rfl, hinterval, fun _ => rfl, ?_, huntil, hprofile⟩
    intro hne
    exact absurd (hcategory.symm.trans himmediate) hne
  · rw [if_neg himmediate]
    refine ⟨htitle, hdescription, by rw [← hcategory]; rfl, hinterval, ?_, fun _ => hexecute, huntil, hprofile⟩
    intro heq
    exact absurd (hcategory.trans heq) himmediate

/-- The task a confirmed draft becomes is what its preview shows, as far as the dates can be
    read and the profile found; an immediate one is due at once. -/
theorem preview_is_what_runs {now : Timestamp} {db db' : Db} {profiles : Profiles} {draft : TaskSpecDraft}
    {extraTags : List String}
    (h : confirm fromisoformat now db profiles draft.intake draft.ownerId extraTags = some db') (rounds : Nat) :
    ∃ view t, draftView draft rounds = some view ∧ db' = db.insert t ∧
      Runs fromisoformat now profiles view.specPreview t := by
  obtain ⟨f, hf, rfl⟩ := Option.map_eq_some_iff.mp h
  simp only [resolvedFields, Option.bind_eq_some_iff, Option.map_eq_some_iff] at hf
  obtain ⟨title, htitle, description, hdescription, category, hcategory, interval, hinterval, profileId, hprofile, rfl⟩ := hf
  have hresolved : ∃ view, draftView draft rounds = some view ∧ resolved draft.intake = some view.specPreview := by
    simp [draftView, resolved, hcategory]
  obtain ⟨view, hview, hpreview⟩ := hresolved
  rw [resolved, hcategory] at hpreview
  have hspec := Option.some.inj hpreview
  refine ⟨view, ?_⟩
  rw [← hspec, exists_and_left]
  refine ⟨hview, createTaskFromFields_runs (textOr_some htitle) (textOr_some hdescription) rfl (textColumn_some hinterval)
    ?_ ?_ ?_ db⟩
  · exact fun _ hdate => parseDatetime_shown hdate
  · exact fun _ hdate => parseDatetime_shown hdate
  · exact fun _ hid => specProfile_shown hprofile hid

end Open

/-! ## Confirmed drafts -/

/-- `datetime.fromisoformat`, of one text. -/
def january (text : String) : Option Timestamp := if text = "2026-01-01T00:00:00+00:00" then some 63902822400000000 else none

def report (executeAt profile : Json) (category : Category) : TaskSpecDraft where
  ownerId := "ada@example.com"
  inputText := "Tidy up the report"
  conversation := [⟨.user, "Tidy up the report"⟩, ⟨.assistant, "Ready: Tidy up"⟩]
  spec := specOf ⟨"Tidy up", true, category, executeAt, .null, .null, some "Tidy up the report", textOrNone profile, none⟩
  questions := none
  questionsUnresolved := false
  status := .ready
  round := 0
  expiresAt := draftTtl
  resolvedTaskId := none

def empty : Db := ⟨0, fun _ => none, Db.fresh_none⟩

/-- The task a draft becomes when it is confirmed at 1 with one profile there. -/
def confirmed (draft : TaskSpecDraft) : Option Task :=
  (confirm january 1 empty [("research", 7)] draft.intake draft.ownerId []).bind fun db => db.get 0

def scheduled : TaskSpecDraft := report (.str "2026-01-01T00:00:00+00:00") (.str "research") .scheduled

def scheduledFields : Fields :=
  ⟨"Tidy up", some "Tidy up the report", .scheduled, some 63902822400000000, none, none, some 7, some "ada@example.com", []⟩

theorem a_scheduled_report_runs :
    ∃ view t, draftView scheduled 2 = some view ∧
      createTaskFromFields 1 empty [("research", 7)] scheduledFields = empty.insert t ∧
      Runs january 1 [("research", 7)] view.specPreview t := by
  have h : confirm january 1 empty [("research", 7)] scheduled.intake scheduled.ownerId [] =
      some (createTaskFromFields 1 empty [("research", 7)] scheduledFields) := rfl
  exact preview_is_what_runs h 2

theorem an_immediate_task_is_given_a_time :
    (draftView (report .null .null .immediate) 2).map (·.specPreview.executeAt) = some .null ∧
      (confirmed (report .null .null .immediate)).map (·.executeAt) = some (some 1) := ⟨rfl, rfl⟩

theorem a_date_is_dropped :
    (draftView (report (.str "next January") .null .scheduled) 2).map (·.specPreview.executeAt) =
        some (.str "next January") ∧
      (confirmed (report (.str "next January") .null .scheduled)).map (·.executeAt) = some none := ⟨rfl, rfl⟩

theorem a_profile_is_dropped :
    (draftView (report .null (.str "coding") .immediate) 2).map (·.specPreview.profile) = some (.str "coding") ∧
      (confirmed (report .null (.str "coding") .immediate)).map (·.profileId) = some none := ⟨rfl, rfl⟩

end Errand.Server.Previews

import Errand.Lib.Dict
import Errand.Lib.Json
import Errand.Lib.Machine

/-
  Errand.Server.UrlReports — replaced webhook URLs and their report (`cloud_endpoints.py`,
  `dismiss_endpoint_url_changes` of `main.py`).

  A reconciliation pass lists each integration's live endpoints and registers again every
  trigger whose token is not among them. Where that fails the trigger's URL is cleared and
  kept in `last_known`; where it succeeds with another URL than the one before, the change
  is recorded for the user. Both are in one setting, which acknowledging deletes. What the
  cloud answers, to each listing and each registration of a pass, is open, and so are the
  rows of the triggers that are not watched.

  The user points the third party at the URL of the last report they dismissed (`known`).

  Proved:
  - `reported_iff`: a URL other than the known one is reported, and the known one is not,
    all along exactly the runs in which each new URL that replaces another is not the known
    one, and each that replaces none is (`Told`).
  - `a_dismissal_loses_the_url`: a report dismissed while the URL is cleared takes the
    `last_known` URL with it, and the URL of the next registration is never reported.
  - `a_return_is_reported`: the cloud goes back to the known URL, and the user is asked to
    repoint a third party that already points there.
-/

namespace Errand.Server.UrlReports

open Errand.Lib

/-- A text that is not empty. -/
abbrev Filled := { s : String // s ≠ "" }

def filled? (s : String) : Option Filled := if h : s ≠ "" then some ⟨s, h⟩ else none

structure Trigger where
  id : String
  name : String
  source : String
  cloudWebhookUrl : Option Filled
  cloudEndpointToken : Option Filled
  deriving DecidableEq, Repr

structure UrlChange where
  triggerId : String
  name : String
  source : String
  previousUrl : Filled
  newUrl : Filled
  changedAt : Int
  deriving DecidableEq, Repr

/-- The value of the `cloud_endpoint_url_changes` setting. -/
structure UrlChanges where
  changes : List UrlChange
  lastKnown : List (String × Filled)
  deriving DecidableEq, Repr

structure Db where
  triggers : List Trigger
  urlChanges : Option UrlChanges
  deriving DecidableEq, Repr

/-! ## What the cloud answers -/

def present (key : String) (j : Json) : Bool := (j.get? key).any Json.truthy

def endpointsOf (data : Json) : List Json :=
  match data.get? "endpoints" with
  | some (.arr endpoints) => endpoints
  | _ => []

/-- The URL and token of a registration: those of the response itself, or of its first
    webhook endpoint. -/
def readRegistration (data : Json) : Option (Filled × Filled) :=
  let endpoint :=
    if present "url" data && present "token" data then some data
    else (endpointsOf data).find? fun ep => ep.fieldIs "type" "webhook" && present "url" ep && present "token" ep
  endpoint.bind fun ep =>
    match ep.get? "url", ep.get? "token" with
    | some (.str url), some (.str token) => (filled? url).bind fun url => (filled? token).map fun token => (url, token)
    | _, _ => none

def isDict : Json → Bool
  | .obj _ => true
  | _ => false

/-- The endpoints of a listing; anything but a list of records is a failed listing. -/
def checkExistingEndpoints : Option Json → Option (List Json)
  | some (.arr endpoints) => if endpoints.all isDict then some endpoints else none
  | _ => none

/-- The set of the listed tokens, none where one of them cannot be hashed. -/
def liveTokens (existing : List Json) : Option (List Json.Key) :=
  ((existing.filterMap (Json.get? "token")).filter Json.truthy).mapM Json.key?

/-- `token and token in live_tokens`. -/
def isLive (live : List Json.Key) (token : Option Filled) : Bool := token.any fun t => live.contains (.str t.1)

/-! ## The report -/

def loadUrlChanges (setting : Option UrlChanges) : UrlChanges := setting.getD ⟨[], []⟩

def saveUrlChanges (value : UrlChanges) : Option UrlChanges :=
  if value.changes.isEmpty && value.lastKnown.isEmpty then none else some value

@[simp] theorem load_save (value : UrlChanges) : loadUrlChanges (saveUrlChanges value) = value := by
  unfold saveUrlChanges
  split
  · rename_i h
    obtain ⟨changes, lastKnown⟩ := value
    simp only [Bool.and_eq_true, List.isEmpty_iff] at h
    rw [h.1, h.2]
    rfl
  · rfl

def clearUrlChanges (db : Db) : Db := { db with urlChanges := none }

/-! ## A pass -/

structure Pass where
  connected : Bool
  /-- The body each integration's listing is answered with, none where the call fails. -/
  listing : String → Option Json
  /-- The body each trigger's registration is answered with, none where it fails. -/
  registration : String → Option Json
  changedAt : String → Int

/-- `registerWebhookTriggerWithCloud` as the pass sees it. -/
def Pass.register (p : Pass) (triggerId : String) : Option (Filled × Filled) := (p.registration triggerId).bind readRegistration

def Db.get (db : Db) (triggerId : String) : Option Trigger := db.triggers.find? fun t => t.id = triggerId

def Db.update (db : Db) (trigger : Trigger) : Db :=
  { db with triggers := db.triggers.map fun t => if t.id = trigger.id then trigger else t }

/-- A trigger the pass looks at again, with what was listed. -/
structure Call where
  integration : String
  live : List Json.Key
  triggerId : String

def withoutLastKnown (value : UrlChanges) (key : String) : UrlChanges :=
  { value with lastKnown := Dict.pop value.lastKnown key }

def withChange (value : UrlChanges) (change : UrlChange) : UrlChanges :=
  { value with changes := (value.changes.filter fun c => c.triggerId ≠ change.triggerId) ++ [change] }

/-- `_reconcile_one`. -/
def reconcileOne (p : Pass) (db : Db) (call : Call) : Db :=
  match db.get call.triggerId with
  | none => db
  | some trigger =>
    if trigger.source ≠ call.integration then db
    else if isLive call.live trigger.cloudEndpointToken then db
    else
      let urlChanges := loadUrlChanges db.urlChanges
      let previousUrl := trigger.cloudWebhookUrl.or (Dict.get? urlChanges.lastKnown trigger.id)
      match p.register trigger.id with
      | some (newUrl, token) =>
        let noted :=
          match previousUrl with
          | some previousUrl =>
            if previousUrl ≠ newUrl then
              withChange urlChanges ⟨trigger.id, trigger.name, trigger.source, previousUrl, newUrl, p.changedAt trigger.id⟩
            else urlChanges
          | none => urlChanges
        { db.update { trigger with cloudWebhookUrl := some newUrl, cloudEndpointToken := some token } with
          urlChanges := saveUrlChanges (withoutLastKnown noted trigger.id) }
      | none =>
        match trigger.cloudWebhookUrl with
        | some url =>
          { db.update { trigger with cloudWebhookUrl := none } with
            urlChanges :=
              saveUrlChanges { urlChanges with lastKnown := Dict.set urlChanges.lastKnown trigger.id url } }
        | none => db

def webhookTriggerIntegrations : List String := ["jira", "github"]

def byIntegration (triggers : List Trigger) : List (String × List (String × Option Filled)) :=
  (triggers.filter fun t => webhookTriggerIntegrations.contains t.source).foldl
    (fun groups t => Dict.set groups t.source ((Dict.get? groups t.source).getD [] ++ [(t.id, t.cloudEndpointToken)])) []

/-- The triggers a pass looks at again, in order: what it registers changes none of the
    listings. A token that cannot be hashed ends the pass. -/
def Pass.calls (p : Pass) : List (String × List (String × Option Filled)) → List Call
  | [] => []
  | (integration, group) :: groups =>
    match checkExistingEndpoints (p.listing integration) with
    | none => p.calls groups
    | some existing =>
      match liveTokens existing with
      | none => []
      | some live =>
        ((group.filter fun row => !isLive live row.2).map fun row => ⟨integration, live, row.1⟩) ++ p.calls groups

/-- `reconcile_webhook_trigger_endpoints`. -/
def reconcile (p : Pass) (db : Db) : Db :=
  if p.connected then (p.calls (byIntegration db.triggers)).foldl (reconcileOne p) db else db

/-! ## Runs -/

structure St where
  db : Db
  /-- The URL the user has configured: of the last report dismissed, or the one at first. -/
  known : Filled

inductive Event where
  | reconcile (p : Pass)
  | dismiss
  | others (triggers : List Trigger)

/-- The URLs reported for a trigger. -/
def reportedFor (triggerId : String) (setting : Option UrlChanges) : List Filled :=
  ((loadUrlChanges setting).changes.filter fun c => c.triggerId = triggerId).map UrlChange.newUrl

def step (triggerId : String) (s : St) : Event → Option St
  | .reconcile p => some { s with db := reconcile p s.db }
  | .dismiss =>
    some { db := clearUrlChanges s.db, known := (reportedFor triggerId s.db.urlChanges).getLast?.getD s.known }
  | .others triggers =>
    if (Db.get { s.db with triggers } triggerId) = s.db.get triggerId then some { s with db.triggers := triggers } else none

/-- The trigger's URL is the one the user has configured, and nothing is reported. -/
def Configured (triggerId : String) (s : St) : Prop :=
  (s.db.get triggerId).bind Trigger.cloudWebhookUrl = some s.known ∧ reportedFor triggerId s.db.urlChanges = []

def machine (triggerId : String) : Machine St Event where
  init := Configured triggerId
  step := step triggerId

/-- A URL other than the known one is reported, the known one is not. -/
def Reported (triggerId : String) (s : St) : Prop :=
  ∀ url, (s.db.get triggerId).bind Trigger.cloudWebhookUrl = some url →
    (url ≠ s.known → ∃ c ∈ (loadUrlChanges s.db.urlChanges).changes, c.triggerId = triggerId ∧ c.newUrl = url) ∧
      (url = s.known → ∀ c ∈ (loadUrlChanges s.db.urlChanges).changes, c.triggerId ≠ triggerId)

/-- The call gets past the checks made of the row. -/
def Call.acts (call : Call) (row : Option Trigger) : Bool :=
  row.any fun trigger => trigger.source = call.integration && !isLive call.live trigger.cloudEndpointToken

/-- The pass registers the trigger again, or fails to. -/
def Pass.attempts (p : Pass) (db : Db) (triggerId : String) : Bool :=
  p.connected &&
    (p.calls (byIntegration db.triggers)).any fun call => call.triggerId = triggerId && call.acts (db.get triggerId)

/-- The URL that the third party is taken to point at. -/
def previousUrl (triggerId : String) (db : Db) : Option Filled :=
  ((db.get triggerId).bind Trigger.cloudWebhookUrl).or (Dict.get? (loadUrlChanges db.urlChanges).lastKnown triggerId)

/-- A new URL that follows another is not the known one, and one that follows none is. -/
def Told (known : Filled) (previousUrl : Option Filled) (newUrl : Filled) : Prop :=
  match previousUrl with
  | some previousUrl => previousUrl ≠ newUrl → newUrl ≠ known
  | none => newUrl = known

/-- Where the pass registers the trigger again, what the code still knows of the URL before
    tells whether the new one is news to the user. -/
def Noted (triggerId : String) (s : St) : Event → Prop
  | .reconcile p =>
    p.attempts s.db triggerId = true → ∀ newUrl token, p.register triggerId = some (newUrl, token) →
      Told s.known (previousUrl triggerId s.db) newUrl
  | _ => True

/-! ## One trigger -/

/-- What the code holds about one trigger. -/
structure View where
  row : Option Trigger
  lastKnown : Option Filled
  reported : List Filled

def view (triggerId : String) (db : Db) : View :=
  ⟨db.get triggerId, Dict.get? (loadUrlChanges db.urlChanges).lastKnown triggerId, reportedFor triggerId db.urlChanges⟩

def View.url (v : View) : Option Filled := v.row.bind Trigger.cloudWebhookUrl

def View.previousUrl (v : View) : Option Filled := v.url.or v.lastKnown

/-- What an attempt makes of it. -/
def View.attempt (outcome : Option (Filled × Filled)) (v : View) : View :=
  match v.row with
  | none => v
  | some trigger =>
    match outcome with
    | some (newUrl, token) =>
      { row := some { trigger with cloudWebhookUrl := some newUrl, cloudEndpointToken := some token }
        lastKnown := none
        reported :=
          match v.previousUrl with
          | some previousUrl => if previousUrl ≠ newUrl then [newUrl] else v.reported
          | none => v.reported }
    | none =>
      match trigger.cloudWebhookUrl with
      | some url => { v with row := some { trigger with cloudWebhookUrl := none }, lastKnown := some url }
      | none => v

theorem get_id {db : Db} {triggerId : String} {trigger : Trigger} (h : db.get triggerId = some trigger) :
    trigger.id = triggerId := by
  simpa using List.find?_some h

theorem get_update_self {db : Db} {trigger old : Trigger} (h : db.get trigger.id = some old) :
    (db.update trigger).get trigger.id = some trigger := by
  obtain ⟨rows, setting⟩ := db
  unfold Db.get Db.update at *
  dsimp only at *
  induction rows with
  | nil => cases h
  | cons r rows ih =>
    rw [List.map_cons]
    by_cases hr : r.id = trigger.id
    · rw [if_pos hr, List.find?_cons_of_pos (by simp)]
    · rw [if_neg hr, List.find?_cons_of_neg (by simpa using hr)]
      rw [List.find?_cons_of_neg (by simpa using hr)] at h
      exact ih h

theorem get_update_other (db : Db) {trigger : Trigger} {triggerId : String} (h : trigger.id ≠ triggerId) :
    (db.update trigger).get triggerId = db.get triggerId := by
  obtain ⟨rows, setting⟩ := db
  unfold Db.get Db.update
  dsimp only
  induction rows with
  | nil => rfl
  | cons r rows ih =>
    rw [List.map_cons]
    by_cases hr : r.id = trigger.id
    · rw [if_pos hr, List.find?_cons_of_neg (by simpa using h), List.find?_cons_of_neg (by simpa [hr] using h)]
      exact ih
    · rw [if_neg hr, List.find?_cons, List.find?_cons, ih]

theorem view_saved (triggerId : String) (db : Db) (value : UrlChanges) :
    view triggerId { db with urlChanges := saveUrlChanges value } =
      ⟨db.get triggerId, Dict.get? value.lastKnown triggerId, reportedFor triggerId (some value)⟩ := by
  unfold view reportedFor
  simp only [load_save]
  rfl

@[simp] theorem withoutLastKnown_lastKnown (value : UrlChanges) (key : String) :
    (withoutLastKnown value key).lastKnown = Dict.pop value.lastKnown key := rfl

@[simp] theorem reportedFor_withoutLastKnown (triggerId key : String) (value : UrlChanges) :
    reportedFor triggerId (some (withoutLastKnown value key)) = reportedFor triggerId (some value) := rfl

@[simp] theorem withChange_lastKnown (value : UrlChanges) (change : UrlChange) :
    (withChange value change).lastKnown = value.lastKnown := rfl

theorem reportedFor_withChange_self (value : UrlChanges) (change : UrlChange) :
    reportedFor change.triggerId (some (withChange value change)) = [change.newUrl] := by
  unfold reportedFor withChange loadUrlChanges
  simp [List.filter_append, List.filter_filter]

theorem reportedFor_withChange_other (value : UrlChanges) {change : UrlChange} {triggerId : String}
    (h : change.triggerId ≠ triggerId) :
    reportedFor triggerId (some (withChange value change)) = reportedFor triggerId (some value) := by
  unfold reportedFor withChange loadUrlChanges
  simp only [Option.getD_some, List.filter_append, List.filter_filter]
  have hlast : [change].filter (fun c => decide (c.triggerId = triggerId)) = [] := by simp [h]
  have hsame : (fun c : UrlChange => decide (c.triggerId = triggerId) && decide (c.triggerId ≠ change.triggerId)) =
      fun c => decide (c.triggerId = triggerId) := by
    funext c
    by_cases hc : c.triggerId = triggerId
    · simp [hc, Ne.symm h]
    · simp [hc]
  rw [hlast, hsame, List.append_nil]

/-- The attempt of one trigger leaves the others alone. -/
theorem view_reconcileOne_other (p : Pass) (db : Db) {call : Call} {triggerId : String} (h : call.triggerId ≠ triggerId) :
    view triggerId (reconcileOne p db call) = view triggerId db := by
  unfold reconcileOne
  split
  · rfl
  · rename_i trigger hget
    have hid : trigger.id ≠ triggerId := by rwa [get_id hget]
    split
    · rfl
    · split
      · rfl
      · dsimp only
        split
        · rename_i newUrl token _
          rw [view_saved, get_update_other _ (by exact hid), withoutLastKnown_lastKnown, Dict.get?_pop_other _ hid,
            reportedFor_withoutLastKnown]
          split
          · split
            · rw [withChange_lastKnown, reportedFor_withChange_other _ (by exact hid)]
              rfl
            · rfl
          · rfl
        · split
          · rw [view_saved, get_update_other _ (by exact hid), Dict.get?_set_other _ _ hid]
            rfl
          · rfl

/-- The attempt of a trigger, where it gets past the checks. -/
theorem view_reconcileOne_self (p : Pass) (db : Db) (call : Call) :
    view call.triggerId (reconcileOne p db call) =
      if call.acts (db.get call.triggerId) then (view call.triggerId db).attempt (p.register call.triggerId)
      else view call.triggerId db := by
  obtain ⟨integration, live, triggerId⟩ := call
  unfold reconcileOne Call.acts
  dsimp only
  cases hget : db.get triggerId with
  | none => rfl
  | some trigger =>
    have hid : trigger.id = triggerId := get_id hget
    subst hid
    have hrow : (view trigger.id db).row = some trigger := hget
    have hprevious : (view trigger.id db).previousUrl =
        trigger.cloudWebhookUrl.or (Dict.get? (loadUrlChanges db.urlChanges).lastKnown trigger.id) := by
      unfold View.previousUrl View.url
      rw [hrow]
      rfl
    simp only [Option.any_some, Bool.and_eq_true, decide_eq_true_eq, Bool.not_eq_true']
    by_cases hsource : trigger.source = integration
    · rw [if_neg (not_not.mpr hsource)]
      cases hlive : isLive live trigger.cloudEndpointToken with
      | true => simp
      | false =>
        rw [if_neg (by simp), if_pos ⟨hsource, rfl⟩]
        unfold View.attempt
        rw [hrow]
        dsimp only
        cases hregister : p.register trigger.id with
        | some registered =>
          obtain ⟨newUrl, token⟩ := registered
          have hupdated := @get_update_self db
            { trigger with cloudWebhookUrl := some newUrl, cloudEndpointToken := some token } trigger hget
          dsimp only at hupdated ⊢
          rw [view_saved, hupdated, withoutLastKnown_lastKnown, Dict.get?_pop_self, reportedFor_withoutLastKnown, hprevious]
          cases trigger.cloudWebhookUrl.or (Dict.get? (loadUrlChanges db.urlChanges).lastKnown trigger.id) with
          | none => rfl
          | some previousUrl =>
            dsimp only
            split
            · rw [reportedFor_withChange_self _
                ⟨trigger.id, trigger.name, trigger.source, previousUrl, newUrl, p.changedAt trigger.id⟩]
            · rfl
        | none =>
          dsimp only
          cases hurl : trigger.cloudWebhookUrl with
          | none => rfl
          | some url =>
            have hupdated := @get_update_self db { trigger with cloudWebhookUrl := none } trigger hget
            dsimp only at hupdated ⊢
            rw [view_saved, hupdated, Dict.get?_set_self]
            rfl
    · rw [if_pos hsource, if_neg (fun h => hsource h.1)]

@[simp] theorem attempt_attempt (outcome : Option (Filled × Filled)) (v : View) :
    (v.attempt outcome).attempt outcome = v.attempt outcome := by
  obtain ⟨row, lastKnown, reported⟩ := v
  cases row with
  | none => rfl
  | some trigger =>
    cases outcome with
    | some registered =>
      show View.attempt _ ⟨some _, none, _⟩ = _
      unfold View.attempt View.previousUrl View.url
      simp
    | none =>
      cases hurl : trigger.cloudWebhookUrl with
      | none => simp [View.attempt, hurl]
      | some url => simp [View.attempt, hurl]

/-- Where one more attempt would change nothing, none of the pass does. -/
theorem view_calls_settled {p : Pass} {triggerId : String} (calls : List Call) {db : Db}
    (h : (view triggerId db).attempt (p.register triggerId) = view triggerId db) :
    view triggerId (calls.foldl (reconcileOne p) db) = view triggerId db := by
  induction calls generalizing db with
  | nil => rfl
  | cons call calls ih =>
    have hone : view triggerId (reconcileOne p db call) = view triggerId db := by
      by_cases hid : call.triggerId = triggerId
      · subst hid
        rw [view_reconcileOne_self]
        split
        · exact h
        · rfl
      · exact view_reconcileOne_other p db hid
    rw [List.foldl_cons, ih (by rw [hone, h]), hone]

theorem view_calls {p : Pass} {triggerId : String} (calls : List Call) (db : Db) :
    view triggerId (calls.foldl (reconcileOne p) db) =
      if calls.any fun call => call.triggerId = triggerId && call.acts (db.get triggerId) then
        (view triggerId db).attempt (p.register triggerId)
      else view triggerId db := by
  induction calls generalizing db with
  | nil => rfl
  | cons call calls ih =>
    rw [List.foldl_cons, List.any_cons]
    by_cases hid : call.triggerId = triggerId
    · subst hid
      have hone := view_reconcileOne_self p db call
      cases hacts : call.acts (db.get call.triggerId) with
      | true =>
        rw [hacts, if_pos rfl] at hone
        rw [view_calls_settled calls (by rw [hone, attempt_attempt]), hone]
        simp
      | false =>
        rw [hacts, if_neg (by simp)] at hone
        have hrow : (reconcileOne p db call).get call.triggerId = db.get call.triggerId := congrArg View.row hone
        rw [ih, hone, hrow]
        simp
    · have hone := view_reconcileOne_other p db hid
      have hrow : (reconcileOne p db call).get triggerId = db.get triggerId := congrArg View.row hone
      rw [ih, hone, hrow]
      simp [hid]

/-- What a pass does about one trigger. -/
theorem view_reconcile (p : Pass) (triggerId : String) (db : Db) :
    view triggerId (reconcile p db) =
      if p.attempts db triggerId then (view triggerId db).attempt (p.register triggerId) else view triggerId db := by
  unfold reconcile Pass.attempts
  cases p.connected with
  | true =>
    rw [if_pos rfl, view_calls, Bool.true_and]
  | false => simp

/-! ## What stays reported -/

theorem mem_reportedFor {triggerId : String} {setting : Option UrlChanges} {url : Filled} :
    url ∈ reportedFor triggerId setting ↔
      ∃ c ∈ (loadUrlChanges setting).changes, c.triggerId = triggerId ∧ c.newUrl = url := by
  unfold reportedFor
  simp [and_assoc]

theorem reportedFor_nil {triggerId : String} {setting : Option UrlChanges} :
    reportedFor triggerId setting = [] ↔ ∀ c ∈ (loadUrlChanges setting).changes, c.triggerId ≠ triggerId := by
  unfold reportedFor
  simp

theorem reported_view_iff {triggerId : String} {s : St} :
    Reported triggerId s ↔ ∀ url, (view triggerId s.db).url = some url →
      (url ≠ s.known → url ∈ (view triggerId s.db).reported) ∧
        (url = s.known → (view triggerId s.db).reported = []) := by
  have hmem : ∀ url : Filled, url ∈ (view triggerId s.db).reported ↔
      ∃ c ∈ (loadUrlChanges s.db.urlChanges).changes, c.triggerId = triggerId ∧ c.newUrl = url :=
    fun _ => mem_reportedFor
  have hnil : (view triggerId s.db).reported = [] ↔
      ∀ c ∈ (loadUrlChanges s.db.urlChanges).changes, c.triggerId ≠ triggerId := reportedFor_nil
  simp only [hmem, hnil]
  rfl

/-- The URL the third party is taken to point at is reported, unless it is the known one. -/
def View.Tracks (v : View) (known : Filled) : Prop :=
  v.reported =
    match v.previousUrl with
    | some url => if url = known then [] else [url]
    | none => []

theorem reported_of_tracks {triggerId : String} {s : St} (h : (view triggerId s.db).Tracks s.known) : Reported triggerId s := by
  rw [reported_view_iff]
  intro url hurl
  have hprevious : (view triggerId s.db).previousUrl = some url := by
    unfold View.previousUrl
    rw [hurl]
    rfl
  unfold View.Tracks at h
  rw [h, hprevious]
  dsimp only
  constructor
  · intro hne
    rw [if_neg hne]
    exact List.mem_singleton_self url
  · intro heq
    rw [if_pos heq]

theorem attempt_registered {v : View} {trigger : Trigger} (h : v.row = some trigger) (newUrl token : Filled) :
    v.attempt (some (newUrl, token)) =
      { row := some { trigger with cloudWebhookUrl := some newUrl, cloudEndpointToken := some token }
        lastKnown := none
        reported :=
          match v.previousUrl with
          | some previousUrl => if previousUrl ≠ newUrl then [newUrl] else v.reported
          | none => v.reported } := by
  unfold View.attempt
  rw [h]

theorem tracks_registered {v : View} {known : Filled} (h : v.Tracks known) (hrow : v.row.isSome = true) {newUrl token : Filled}
    (ht : Told known v.previousUrl newUrl) : (v.attempt (some (newUrl, token))).Tracks known := by
  obtain ⟨trigger, hrow⟩ := Option.isSome_iff_exists.mp hrow
  rw [attempt_registered hrow]
  unfold View.Tracks at h ⊢
  show _ = if newUrl = known then [] else [newUrl]
  dsimp only
  rw [h]
  cases hprevious : v.previousUrl with
  | none =>
    rw [hprevious] at ht
    exact (if_pos ht).symm
  | some previousUrl =>
    rw [hprevious] at ht
    dsimp only
    by_cases hne : previousUrl = newUrl
    · rw [if_neg (not_not.mpr hne), hne]
    · rw [if_pos hne, if_neg (ht hne)]

/-- A URL that fails to be registered again is kept. -/
theorem tracks_failed {v : View} {known : Filled} (h : v.Tracks known) : (v.attempt none).Tracks known := by
  obtain ⟨row, lastKnown, reported⟩ := v
  cases row with
  | none => exact h
  | some trigger =>
    cases hurl : trigger.cloudWebhookUrl with
    | none => simpa [View.attempt, hurl] using h
    | some url =>
      have hattempt : View.attempt none ⟨some trigger, lastKnown, reported⟩ =
          ⟨some { trigger with cloudWebhookUrl := none }, some url, reported⟩ := by
        unfold View.attempt
        dsimp only
        rw [hurl]
      have hprevious : (View.mk (some trigger) lastKnown reported).previousUrl = some url := by
        show (trigger.cloudWebhookUrl.or lastKnown) = _
        rw [hurl]
        rfl
      unfold View.Tracks at h ⊢
      rw [hprevious] at h
      rw [hattempt]
      exact h

/-- After a registration that is not told the report is wrong. -/
theorem told_of_reported {v : View} {known : Filled} (h : v.Tracks known) (hrow : v.row.isSome = true) {newUrl token : Filled}
    (hr : ∀ url, (v.attempt (some (newUrl, token))).url = some url →
      (url ≠ known → url ∈ (v.attempt (some (newUrl, token))).reported) ∧
        (url = known → (v.attempt (some (newUrl, token))).reported = [])) :
    Told known v.previousUrl newUrl := by
  obtain ⟨trigger, hrow⟩ := Option.isSome_iff_exists.mp hrow
  rw [attempt_registered hrow] at hr
  obtain ⟨hnews, hknown⟩ := hr newUrl rfl
  unfold View.Tracks at h
  cases hprevious : v.previousUrl with
  | none =>
    rw [hprevious] at h hnews
    by_contra hne
    have hmem := hnews hne
    dsimp only at hmem h
    rw [h] at hmem
    cases hmem
  | some previousUrl =>
    intro hne heq
    have hnil := hknown heq
    rw [hprevious] at hnil
    dsimp only at hnil
    rw [if_pos hne] at hnil
    cases hnil

theorem attempts_row {p : Pass} {db : Db} {triggerId : String} (h : p.attempts db triggerId = true) :
    (view triggerId db).row.isSome = true := by
  unfold Pass.attempts at h
  rw [Bool.and_eq_true, List.any_eq_true] at h
  obtain ⟨-, call, -, hcall⟩ := h
  have hacts : call.acts (db.get triggerId) = true := (Bool.and_eq_true _ _ ▸ hcall).2
  show (db.get triggerId).isSome = true
  cases hget : db.get triggerId with
  | none =>
    rw [hget] at hacts
    cases hacts
  | some trigger => rfl

theorem reconcile_step {p : Pass} {triggerId : String} {s : St} (h : (view triggerId s.db).Tracks s.known) :
    (Noted triggerId s (.reconcile p) → (view triggerId (reconcile p s.db)).Tracks s.known) ∧
      (Reported triggerId { s with db := reconcile p s.db } → Noted triggerId s (.reconcile p)) := by
  have hview := view_reconcile p triggerId s.db
  cases hattempts : p.attempts s.db triggerId with
  | false =>
    rw [hattempts, if_neg (by simp)] at hview
    constructor
    · intro _
      rw [hview]
      exact h
    · intro _ hacted
      rw [hattempts] at hacted
      cases hacted
  | true =>
    rw [hattempts, if_pos rfl] at hview
    have hrow := attempts_row hattempts
    constructor
    · intro hnoted
      rw [hview]
      cases hregister : p.register triggerId with
      | none => exact tracks_failed h
      | some registered => exact tracks_registered h hrow (hnoted hattempts registered.1 registered.2 hregister)
    · intro hreported _ newUrl token hregister
      rw [reported_view_iff, hview, hregister] at hreported
      exact told_of_reported h hrow hreported

theorem dismiss_step {triggerId : String} {s : St} (h : (view triggerId s.db).Tracks s.known) :
    (view triggerId (clearUrlChanges s.db)).Tracks ((reportedFor triggerId s.db.urlChanges).getLast?.getD s.known) := by
  have hview : view triggerId (clearUrlChanges s.db) = ⟨(view triggerId s.db).row, none, []⟩ := rfl
  have hreported : reportedFor triggerId s.db.urlChanges = (view triggerId s.db).reported := rfl
  rw [hview, hreported]
  unfold View.Tracks at h ⊢
  cases hurl : (view triggerId s.db).url with
  | none =>
    show [] = match ((view triggerId s.db).url.or none) with | some url => _ | none => []
    rw [hurl]
    rfl
  | some url =>
    have hprevious : (view triggerId s.db).previousUrl = some url := by
      unfold View.previousUrl
      rw [hurl]
      rfl
    have hknown : (view triggerId s.db).reported.getLast?.getD s.known = url := by
      rw [h, hprevious]
      dsimp only
      split
      · rename_i heq
        exact heq.symm
      · rfl
    show [] = match ((view triggerId s.db).url.or none) with | some url => _ | none => []
    rw [hurl, hknown]
    exact (if_pos rfl).symm

theorem step_tracks {triggerId : String} (s : St) (e : Event) (s' : St) (h : (view triggerId s.db).Tracks s.known)
    (hst : (machine triggerId).step s e = some s') :
    (Noted triggerId s e → (view triggerId s'.db).Tracks s'.known) ∧ (Reported triggerId s' → Noted triggerId s e) := by
  cases e with
  | reconcile p =>
    cases hst
    exact reconcile_step h
  | dismiss =>
    cases hst
    exact ⟨fun _ => dismiss_step h, fun _ => trivial⟩
  | others triggers =>
    obtain ⟨hsame, hst⟩ := Option.ite_none_right_eq_some.mp hst
    cases hst
    refine ⟨fun _ => ?_, fun _ => trivial⟩
    have hview : view triggerId { s.db with triggers } = view triggerId s.db := by
      unfold view
      rw [hsame]
    show (view triggerId { s.db with triggers }).Tracks s.known
    rw [hview]
    exact h

theorem configured_tracks {triggerId : String} {s : St} (h : Configured triggerId s) : (view triggerId s.db).Tracks s.known := by
  obtain ⟨hurl, hnone⟩ := h
  have hprevious : (view triggerId s.db).previousUrl = some s.known := by
    show ((s.db.get triggerId).bind Trigger.cloudWebhookUrl).or _ = _
    rw [hurl]
    rfl
  unfold View.Tracks
  rw [hprevious]
  dsimp only
  rw [if_pos rfl]
  exact hnone

theorem reported_iff {triggerId : String} {s : St} (h : Configured triggerId s) (es : List Event) :
    (∀ n s', (machine triggerId).exec s (es.take n) = some s' → Reported triggerId s') ↔
      ∀ p ∈ (machine triggerId).trace s es, Noted triggerId p.1 p.2 := by
  have hstep : ∀ s e s', (view triggerId s.db).Tracks s.known → True → (machine triggerId).step s e = some s' →
      (Noted triggerId s e → (view triggerId s'.db).Tracks s'.known) ∧ (Reported triggerId s' → Noted triggerId s e) :=
    fun s e s' hs _ hst => step_tracks s e s' hs hst
  exact Machine.throughout_iff_meets (fun _ hs => reported_of_tracks hs) hstep (configured_tracks h) fun _ _ => trivial

/-! ## A report lost -/

def urlA : Filled := ⟨"https://relay/hook/a", by decide⟩

theorem tokenA_ne : "a" ≠ "" := by decide

def board : Trigger := ⟨"7f1c", "Board", "jira", some urlA, some ⟨"a", tokenA_ne⟩⟩

def boardAt : St := ⟨⟨[board], none⟩, urlA⟩

/-- A pass that finds no endpoint. -/
def passWith (registration : Option Json) : Event := .reconcile ⟨true, fun _ => some (.arr []), fun _ => registration, fun _ => 0⟩

def registered (url token : String) : Json := .obj [("url", .str url), ("token", .str token)]

/-- The URL was cleared when the user dismissed a report that did not name it, and the one
    that replaces it is not reported. -/
theorem a_dismissal_loses_the_url :
    Configured "7f1c" boardAt ∧
      ∃ s, (machine "7f1c").exec boardAt
          [passWith none, .dismiss, passWith (some (registered "https://relay/hook/b" "b"))] = some s ∧
        ¬ Reported "7f1c" s := by
  refine ⟨⟨rfl, rfl⟩, _, rfl, ?_⟩
  intro h
  obtain ⟨c, hc, -⟩ := (h ⟨"https://relay/hook/b", by decide⟩ rfl).1 (by decide)
  cases hc

theorem a_return_is_reported :
    ∃ s, (machine "7f1c").exec boardAt
        [passWith (some (registered "https://relay/hook/b" "b")), passWith (some (registered "https://relay/hook/a" "a2"))] =
          some s ∧
      ¬ Reported "7f1c" s := by
  refine ⟨_, rfl, ?_⟩
  intro h
  exact (h urlA rfl).2 rfl ⟨"7f1c", "Board", "jira", ⟨"https://relay/hook/b", by decide⟩, urlA, 0⟩
    (List.mem_singleton_self _) rfl

/-- A failure, a repair and a dismissal: the new URL is reported until then. -/
theorem a_repair_is_reported :
    ((machine "7f1c").exec boardAt
        [passWith none, passWith (some (registered "https://relay/hook/b" "b")), .dismiss]).isSome = true ∧
      ∀ n s, (machine "7f1c").exec boardAt
          ([passWith none, passWith (some (registered "https://relay/hook/b" "b")), .dismiss].take n) = some s →
        Reported "7f1c" s := by
  refine ⟨rfl, (reported_iff ⟨rfl, rfl⟩ _).mpr ?_⟩
  intro p hp
  rcases List.mem_cons.mp hp with rfl | hp
  · intro _ _ _ hregister
    cases hregister
  rcases List.mem_cons.mp hp with rfl | hp
  · intro _ newUrl token hregister
    have hurl : newUrl = ⟨"https://relay/hook/b", by decide⟩ := by
      cases hregister
      rfl
    subst hurl
    show urlA ≠ _ → _ ≠ urlA
    decide
  rw [List.mem_singleton.mp hp]
  trivial

end Errand.Server.UrlReports

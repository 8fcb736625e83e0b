import Errand.Lib.Transaction
import Errand.Server.RunnerSettings

/-
  Errand.Server.SettingsUpdate — PUT /api/settings (`update_settings` of errand/main.py) and the
  save of a page as GET reports it.

  The update writes key by key in one transaction. A key the environment gives is skipped; a
  value is checked where its key has a check; the mask of a stored secret is not written over
  it; a model's two names are kept in sync; null clears two of the keys. After the commit the
  sign-on is set up anew if the body has one of its keys, which fails if the discovery does.
  Which zones exist and which addresses answer the discovery is open; UTC exists.

  Proved:
  - `refused_update`: with a value that fails its check nothing is stored.
  - `updateSettings_accepted`: where no value fails, what is stored and what is answered.
-/

namespace Errand.Server.SettingsUpdate

open Errand.Lib Errand.Lib.Transaction Errand.Server.SettingsRegistry Errand.Server.RunnerSettings

/-! ## The update -/

inductive Refusal where
  /-- 422. -/
  | invalid (detail : String)
  /-- An error of another kind: 500. -/
  | raised
  /-- "OIDC discovery failed — check the discovery URL": 400, after the commit. -/
  | discovery
  deriving DecidableEq, Repr

inductive Zone where
  | known
  | unknown
  | raised
  deriving DecidableEq, Repr

structure Services where
  zoneInfo : String → Zone
  repr : String → String
  discovers : String → Bool
  utc : zoneInfo "UTC" = .known

def validateNonNegativeInt : Json → Option String
  | .int n => if n < 0 then some "must be a non-negative integer" else none
  | _ => some "must be a non-negative integer"

def validatePositiveInt : Json → Option String
  | .int n => if n < 1 then some "must be a positive integer" else none
  | _ => some "must be a positive integer"

/-- `VALID_REASONING_EFFORTS`. -/
def validReasoningEfforts : List String := ["low", "medium", "high"]

/-- Membership in a set, which raises for what cannot be hashed. -/
def validateReasoningEffort (value : Json) : Except Refusal (Option String) :=
  match value.key? with
  | none => .error .raised
  | some (.str s) => .ok (if validReasoningEfforts.contains s then none else some "must be one of: high, low, medium")
  | some _ => .ok (some "must be one of: high, low, medium")

/-- `VALID_LOG_LEVELS`. -/
def validLogLevels : List String := ["DEBUG", "INFO", "WARNING", "ERROR"]

def validateLogLevel : Json → Option String
  | .str s => if validLogLevels.contains s then none else some "must be one of: DEBUG, INFO, WARNING, ERROR"
  | _ => some "must be one of: DEBUG, INFO, WARNING, ERROR"

def validateTimezone (services : Services) : Json → Except Refusal (Option String)
  | .str s =>
    if s = "" then .ok (some "must be an IANA time zone name")
    else
      match services.zoneInfo s with
      | .known => .ok none
      | .unknown => .ok (some ("is not a known IANA time zone: " ++ services.repr s))
      | .raised => .error .raised
  | _ => .ok (some "must be an IANA time zone name")

/-- `_SETTING_VALIDATORS`. -/
def settingValidators (services : Services) : List (String × (Json → Except Refusal (Option String))) :=
  [("plugin_poll_interval_seconds", fun value => .ok (validateNonNegativeInt value)),
   ("max_turns", fun value => .ok (validatePositiveInt value)),
   ("clarification_max_rounds", fun value => .ok (validatePositiveInt value)),
   ("reasoning_effort", validateReasoningEffort),
   ("task_runner_log_level", fun value => .ok (validateLogLevel value)),
   ("timezone", validateTimezone services)]

/-- `_NULL_CLEARS_KEYS`. -/
def nullClearsKeys : List String := ["max_turns", "reasoning_effort"]

abbrev Rows := String → Option Json

section Definitions

variable (builtins : Builtins) (services : Services) (env : String → Option String)

/-- A null that clears its key instead of being stored. -/
def clears (key : String) (value : Json) : Bool := (value matches .null) && nullClearsKeys.contains key

/-- The validator of the key on a value: none if it has no fault. -/
def validate (key : String) (value : Json) : Except Refusal Unit :=
  match (settingValidators services).lookup key with
  | none => .ok ()
  | some validator =>
    match validator value with
    | .ok none => .ok ()
    | .ok (some problem) => .error (.invalid (key ++ " " ++ problem))
    | .error e => .error e

def checkValue (key : String) (value : Json) : Except Refusal Unit :=
  if clears key value then .ok () else validate services key value

/-- The environment gives the setting. -/
def givenByEnv (key : String) : Bool := (settingsRegistry.lookup key).any fun info => (envText env info).isSome

/-- A key that is not written, whatever its value. -/
def skipped (key : String) : Bool := key == "skills" || excludedKeys.contains key || givenByEnv env key

/-- The value is the mask of the text that is stored. -/
def isMask (key : String) (value : Json) (row : Option Json) : Bool :=
  (settingsRegistry.lookup key).any Meta.maskAlways &&
    match value, row with
    | .str s, some (.str current) => current != "" && s == maskSensitiveValue builtins (.str current)
    | _, _ => false

/-- The row after the write of a value. -/
def written (key : String) (value : Json) (row : Option Json) : Option Json :=
  if isMask builtins key value row then row
  else
    let value := if modelSettingKeys.contains key then normalizeModelSettingValue value else value
    if clears key value then none else some value

/-- One key of the body. -/
def putItem (rows : Rows) (item : String × Json) : Except Refusal Rows :=
  if skipped env item.1 then .ok rows
  else
    match checkValue services item.1 item.2 with
    | .ok () => .ok (Function.update rows item.1 (written builtins item.1 item.2 (rows item.1)))
    | .error e => .error e

def oidcKeys : List String := ["oidc_discovery_url", "oidc_client_id", "oidc_client_secret", "oidc_roles_claim"]

/-- The sign-on comes from the environment alone. -/
def oidcFromEnv : Bool :=
  (setIn env "OIDC_DISCOVERY_URL").isSome && (setIn env "OIDC_CLIENT_ID").isSome &&
    (setIn env "OIDC_CLIENT_SECRET").isSome

/-- `OIDCConfig.from_env(db_settings)`, where the environment gives no configuration: the
    address of the discovery. -/
def oidcConfig (rows : Rows) : Option String :=
  let truthy (key : String) := (rows key).any Json.truthy
  if truthy "oidc_discovery_url" && truthy "oidc_client_id" && truthy "oidc_client_secret" then
    (rows "oidc_discovery_url").map (text builtins)
  else none

/-- `_try_oidc_hot_reload`; false if it raises. -/
def oidcHotReload (rows : Rows) : Bool := oidcFromEnv env || (oidcConfig builtins rows).all services.discovers

/-- `update_settings`: the response, and what is stored. -/
def updateSettings (rows : Rows) (body : List (String × Json)) :
    Except Refusal (List (String × Resolved)) × Rows :=
  match transact (putItem builtins services env) rows body with
  | (some refusal, stored) => (.error refusal, stored)
  | (none, stored) =>
    if (oidcKeys.any fun key => (body.lookup key).isSome) && !oidcHotReload builtins services env stored then
      (.error .discovery, stored)
    else (.ok (resolveSettings builtins env stored), stored)

/-! ## The page -/

/-- Every key with the value that GET /api/settings reports. -/
def page (rows : Rows) : List (String × Json) :=
  (resolveSettings builtins env rows).map fun entry => (entry.1, entry.2.value)

/-- What is stored after the page is sent back. -/
def saved (rows : Rows) : Rows := (updateSettings builtins services env rows (page builtins env rows)).2

/-- A value of the body that is checked and fails. -/
def Fails (item : String × Json) : Prop :=
  skipped env item.1 = false ∧ checkValue services item.1 item.2 ≠ .ok ()

/-- Stored values that pass the validators of their keys. -/
structure Table where
  rows : Rows
  valid : ∀ key value, rows key = some value → validate services key value = .ok ()

end Definitions

section Update

variable (builtins : Builtins) {services : Services} {env : String → Option String}

/-- What an accepted item makes of its row. -/
def putRow (builtins : Builtins) (env : String → Option String) (item : String × Json) (row : Option Json) :
    Option Json :=
  if skipped env item.1 then row else written builtins item.1 item.2 row

theorem putItem_ok {item : String × Json} (h : ¬ Fails services env item) (rows : Rows) :
    putItem builtins services env rows item =
      .ok (writeOne Prod.fst (putRow builtins env) rows item) := by
  rw [putItem, writeOne, putRow]
  cases hskip : skipped env item.1 with
  | true =>
    rw [if_pos rfl, if_pos rfl, Function.update_eq_self]
  | false =>
    have hok : checkValue services item.1 item.2 = .ok () := by
      by_contra hno
      exact h ⟨hskip, hno⟩
    rw [if_neg Bool.false_ne_true, if_neg Bool.false_ne_true, hok]

theorem putItem_error {item : String × Json} (h : Fails services env item) (rows : Rows) :
    ∃ e, putItem builtins services env rows item = .error e := by
  obtain ⟨hskip, hcheck⟩ := h
  rw [putItem, hskip, if_neg Bool.false_ne_true]
  cases hresult : checkValue services item.1 item.2 with
  | ok u => exact absurd hresult hcheck
  | error e => exact ⟨e, rfl⟩

/-- With a value that fails its check nothing is stored. -/
theorem refused_update {item : String × Json} {body : List (String × Json)} (hmem : item ∈ body)
    (h : Fails services env item) (rows : Rows) :
    ∃ e, updateSettings builtins services env rows body = (.error e, rows) := by
  obtain ⟨e, he⟩ := transact_refused hmem (putItem_error builtins h) rows
  refine ⟨e, ?_⟩
  rw [updateSettings, he]

/-- Where nothing fails, every value is written under its key. -/
theorem updateSettings_accepted {body : List (String × Json)} (h : ∀ item ∈ body, ¬ Fails services env item)
    (rows : Rows) :
    updateSettings builtins services env rows body =
      (if (oidcKeys.any fun key => (body.lookup key).isSome) &&
          !oidcHotReload builtins services env (writeAll Prod.fst (putRow builtins env) rows body) then
        .error .discovery
      else .ok (resolveSettings builtins env (writeAll Prod.fst (putRow builtins env) rows body)),
        writeAll Prod.fst (putRow builtins env) rows body) := by
  have hrun := transact_accepted (fun item hitem s => putItem_ok builtins (h item hitem) s) rows
  rw [updateSettings, hrun]
  show (if _ then _ else _ : Except Refusal (List (String × Resolved)) × Rows) = _
  split
  · rename_i hfails
    exact Prod.ext (if_pos hfails).symm rfl
  · rename_i hfails
    exact Prod.ext (if_neg hfails).symm rfl

end Update

end Errand.Server.SettingsUpdate

import Errand.Lib.Dict
import Errand.Lib.Json
import Errand.Lib.PyStr

/-
  Errand.Server.SettingsRegistry — the settings registry and how a setting resolves
  (`errand/settings_registry.py`): environment, then database, then the default, each
  coerced to the type of the default.

  The environment is a function from a variable to its text; the table is one from a key
  to its row's value. What `str` makes of a value that is no text, `int` of a float and
  `json.loads` of a text is open.

  Proved:
  - `resolve_env`, `resolve_row`, `resolve_default`: which of the three a setting comes from.
  - `coerce_text`: a text is what a text setting holds.
-/

namespace Errand.Server.SettingsRegistry

open Errand.Lib

structure Builtins where
  str : Json → String
  truncate : PyFloat → Option Int
  loads : String → Option Json

structure Meta where
  envVar : Option String
  sensitive : Bool
  default : Json
  maskAlways : Bool

def noModel : Json := .obj [("provider_id", .null), ("model", .str "")]

def systemPrompt : Meta := ⟨none, false, .str "", false⟩

def taskRunnerLogLevel : Meta := ⟨none, false, .str "INFO", false⟩

def maxTurns : Meta := ⟨some "MAX_TURNS", false, .int 200, false⟩

def reasoningEffort : Meta := ⟨some "REASONING_EFFORT", false, .str "medium", false⟩

def gitSshHosts : Meta := ⟨none, false, .arr [.str "github.com", .str "bitbucket.org"], false⟩

def hindsightUrl : Meta := ⟨some "HINDSIGHT_URL", false, .str "", false⟩

def hindsightBankId : Meta := ⟨some "HINDSIGHT_BANK_ID", false, .str "errand-tasks", false⟩

def hindsightToken : Meta := ⟨some "HINDSIGHT_TOKEN", true, .str "", true⟩

def taskProcessingTimeout : Meta := ⟨none, false, .int 30, false⟩

def compactionModel : Meta := ⟨some "COMPACTION_MODEL", false, noModel, false⟩

def compactionTimeout : Meta := ⟨some "COMPACTION_TIMEOUT_SECONDS", false, .int 180, false⟩

def compactionMaxTokens : Meta := ⟨some "COMPACTION_MAX_TOKENS", false, .int 4096, false⟩

def maxContextTokens : Meta := ⟨some "MAX_CONTEXT_TOKENS", false, .int 150000, false⟩

/-- `SETTINGS_REGISTRY`. -/
def settingsRegistry : List (String × Meta) :=
  [("system_prompt", systemPrompt),
   ("llm_model", ⟨none, false, noModel, false⟩),
   ("task_processing_model", ⟨none, false, noModel, false⟩),
   ("transcription_model", ⟨none, false, noModel, false⟩),
   ("task_runner_log_level", taskRunnerLogLevel),
   ("timezone", ⟨none, false, .str "UTC", false⟩),
   ("max_turns", maxTurns),
   ("reasoning_effort", reasoningEffort),
   ("archive_after_days", ⟨none, false, .int 3, false⟩),
   ("clarification_max_rounds", ⟨none, false, .int 2, false⟩),
   ("mcp_servers", ⟨none, false, .null, false⟩),
   ("mcp_api_key", ⟨none, true, .null, false⟩),
   ("ssh_public_key", ⟨none, false, .null, false⟩),
   ("git_ssh_hosts", gitSshHosts),
   ("skills_git_repo", ⟨none, false, .null, false⟩),
   ("oidc_discovery_url", ⟨some "OIDC_DISCOVERY_URL", false, .str "", false⟩),
   ("oidc_client_id", ⟨some "OIDC_CLIENT_ID", false, .str "", false⟩),
   ("oidc_client_secret", ⟨some "OIDC_CLIENT_SECRET", true, .str "", false⟩),
   ("oidc_roles_claim", ⟨some "OIDC_ROLES_CLAIM", false, .str "resource_access.errand.roles", false⟩),
   ("litellm_mcp_servers", ⟨none, false, .arr [], false⟩),
   ("hindsight_url", hindsightUrl),
   ("hindsight_bank_id", hindsightBankId),
   ("hindsight_token", hindsightToken),
   ("title_generation_timeout", ⟨none, false, .int 30, false⟩),
   ("task_processing_timeout", taskProcessingTimeout),
   ("transcription_timeout", ⟨none, false, .int 30, false⟩),
   ("compaction_model", compactionModel),
   ("compaction_timeout", compactionTimeout),
   ("compaction_max_tokens", compactionMaxTokens),
   ("max_context_tokens", maxContextTokens),
   ("cloud_service_url", ⟨none, false, .str "https://errand.cloud", false⟩),
   ("cloud_endpoints", ⟨none, false, .arr [], false⟩),
   ("telemetry_enabled", ⟨some "TELEMETRY_ENABLED", false, .bool true, false⟩),
   ("max_concurrent_tasks", ⟨some "MAX_CONCURRENT_TASKS", false, .int 3, false⟩),
   ("max_retry_attempts", ⟨some "MAX_RETRY_ATTEMPTS", false, .int 5, false⟩),
   ("task_log_buffer_max_entries", ⟨none, false, .int 5000, false⟩),
   ("task_log_buffer_ttl_seconds", ⟨none, false, .int 86400, false⟩),
   ("plugin_poll_interval_seconds", ⟨none, false, .int 21600, false⟩),
   ("url_fetch_allowlist", ⟨none, false, .arr [], false⟩)]

/-- `EXCLUDED_KEYS`. -/
def excludedKeys : List String := ["ssh_private_key", "jwt_signing_secret"]

variable (builtins : Builtins)

/-- `int(raw)` for a value that is no bool; none if it raises. -/
def toInt : Json → Option Int
  | .int n => some n
  | .float x => builtins.truncate x
  | .str s => PyStr.int? s.toList
  | _ => none

/-- `_coerce`; none if it raises. -/
def coerce (raw default : Json) : Option Json :=
  match default with
  | .bool _ =>
    match raw with
    | .bool b => some (.bool b)
    | .str s =>
      let normalised := String.ofList (PyStr.lower (PyStr.strip s.toList))
      if normalised = "true" ∨ normalised = "1" then some (.bool true)
      else if normalised = "false" ∨ normalised = "0" then some (.bool false)
      else none
    | _ => none
  | .int _ => (toInt builtins raw).map .int
  | .str _ =>
    match raw with
    | .str s => some (.str s)
    | raw => some (.str (builtins.str raw))
  | .obj _ =>
    match raw with
    | .obj fields => some (.obj fields)
    | .str s => (builtins.loads s).filter (· matches .obj _)
    | _ => none
  | .arr _ =>
    match raw with
    | .arr items => some (.arr items)
    | .str s => (builtins.loads s).filter (· matches .arr _)
    | _ => none
  | _ => some raw

inductive Source where
  | env
  | database
  | default
  deriving DecidableEq, Repr

variable (env : String → Option String) (rows : String → Option Json)

/-- The text of a setting's variable, if it is set and not empty. -/
def envText (info : Meta) : Option String := (info.envVar.bind env).filter (· ≠ "")

def coerceOr (raw : Json) (info : Meta) (source : Source) : Json × Source :=
  match coerce builtins raw info.default with
  | some value => (value, source)
  | none => (info.default, .default)

/-- `resolve_setting_value`, for the key's entry in the registry. -/
def resolveSettingValue (key : String) (info : Meta) : Json × Source :=
  match envText env info with
  | some text => coerceOr builtins (.str text) info .env
  | none =>
    match rows key with
    | some value => coerceOr builtins value info .database
    | none => (info.default, .default)

/-- `mask_sensitive_value`. -/
def maskSensitiveValue (value : Json) : String :=
  let text := match value with
    | .str s => s
    | value => builtins.str value
  if value.truthy = false ∨ text.length ≤ 4 then "****" else String.ofList (text.toList.take 4) ++ "****"

/-- `MODEL_SETTING_KEYS`. -/
def modelSettingKeys : List String := ["llm_model", "task_processing_model", "transcription_model", "compaction_model"]

/-- `value.get("model") or value.get("model_id")`. -/
def modelOf (value : Json) : Json :=
  let model := (value.get? "model").getD .null
  if model.truthy then model else (value.get? "model_id").getD .null

def normalizeModelSettingValue (value : Json) : Json :=
  match value with
  | .obj _ =>
    let model := modelOf value
    if model matches .null then value else (value.set "model" model).set "model_id" model
  | value => value

structure Resolved where
  value : Json
  source : Source
  sensitive : Bool
  readonly : Bool

/-- A setting as `resolve_settings` reports it. -/
def resolveSetting (key : String) (info : Meta) : Resolved :=
  let (value, source) := resolveSettingValue builtins env rows key info
  let masked : Json :=
    if info.sensitive ∧ value.truthy ∧ (source = .env ∨ info.maskAlways) then .str (maskSensitiveValue builtins value)
    else value
  { value := if modelSettingKeys.contains key then normalizeModelSettingValue masked else masked
    source := source
    sensitive := info.sensitive
    readonly := decide (source = .env) }

/-- `resolve_settings`. -/
def resolveSettings : List (String × Resolved) :=
  (settingsRegistry.filter fun entry => !excludedKeys.contains entry.1).map fun entry =>
    (entry.1, resolveSetting builtins env rows entry.1 entry.2)

variable {builtins env rows}

theorem resolve_env {key text : String} {info : Meta} (h : envText env info = some text) :
    resolveSettingValue builtins env rows key info = coerceOr builtins (.str text) info .env := by
  rw [resolveSettingValue, h]

theorem resolve_row {key : String} {info : Meta} {value : Json} (h : envText env info = none)
    (hrow : rows key = some value) :
    resolveSettingValue builtins env rows key info = coerceOr builtins value info .database := by
  rw [resolveSettingValue, h, hrow]

theorem resolve_default {key : String} {info : Meta} (h : envText env info = none) (hrow : rows key = none) :
    resolveSettingValue builtins env rows key info = (info.default, .default) := by
  rw [resolveSettingValue, h, hrow]

theorem coerce_text (s d : String) : coerce builtins (.str s) (.str d) = some (.str s) := rfl

end Errand.Server.SettingsRegistry

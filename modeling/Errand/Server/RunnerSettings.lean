import Errand.Server.SettingsRegistry

/-
  Errand.Server.RunnerSettings — what a task runs with: `_read_settings` and `_process_task`
  of errand/task_manager.py, for the settings that configure the runner, beside what
  GET /api/settings reports of them.

  The task has no profile and its provider was configured manually. A variable of the
  container is given first by the `credentials` list, then by the setting, last by the task's
  own environment. A number in it is passed as its text and stands for what `int` makes of
  that; a variable that is not passed stands for the runner's default, here the registry's.
  The Git hosts are used where there is an SSH key. `int` of a float that is infinite raises
  what `_read_settings` does not catch, and a credential whose key cannot be hashed ends
  `_process_task`: such a task does not run.

  Proved:
  - `agrees_iff`: the page shows what a task runs with exactly if the environment and the
    stored values are `Sound`.
  - `the_compaction_model_is_not_shown`: a model named in the environment.
-/

namespace Errand.Server.RunnerSettings

open Errand.Lib Errand.Server.SettingsRegistry

section Definitions

variable (builtins : Builtins) (overflows : PyFloat → Bool)
variable (env : String → Option String) (rows : String → Option Json) (own : String → Option Json)

/-- `os.environ.get(name, "")`, if it is not empty. -/
def setIn (name : String) : Option String := (env name).filter (· ≠ "")

/-- `s or fallback`. -/
def orText (s fallback : String) : String := if s = "" then fallback else s

/-- `str(value)`. -/
def text : Json → String
  | .str s => s
  | value => builtins.str value

/-- `str(value) if value else ""`. -/
def textOrEmpty (value : Json) : String := if value.truthy then text builtins value else ""

def rowText (key : String) : String := (rows key).elim "" (textOrEmpty builtins)

/-- `value if isinstance(value, list) else []`. -/
def rowItems (key : String) : List Json :=
  match rows key with
  | some (.arr items) => items
  | _ => []

/-- `int(value)`, where a bool is a number too; none if it raises, or there is none. -/
def toNumber : Json → Option Int
  | .bool b => some (if b then 1 else 0)
  | value => toInt builtins value

/-- `int` raises an OverflowError, which is neither a TypeError nor a ValueError. -/
def raises : Json → Bool
  | .float x => (builtins.truncate x).isNone && overflows x
  | _ => false

/-- A number that is positive; any other is ignored. -/
def rowNumber (key : String) : Option Int := (rows key).bind fun value => (toNumber builtins value).filter (0 < ·)

def numberKeys : List String :=
  ["task_processing_timeout", "compaction_timeout", "compaction_max_tokens", "max_context_tokens"]

/-- What `_read_settings` returns, of what the runner is configured by. -/
structure Settings where
  credentials : List Json
  systemPrompt : String
  taskRunnerLogLevel : String
  sshPrivateKey : String
  gitSshHosts : List Json
  hindsightUrl : String
  hindsightBankId : String
  taskProcessingTimeout : Option Int
  compactionModel : Json
  compactionTimeout : Option Int
  compactionMaxTokens : Option Int
  maxContextTokens : Option Int
  maxTurns : Json
  reasoningEffort : Json

def settingsOf : Settings where
  credentials := rowItems rows "credentials"
  systemPrompt := rowText builtins rows "system_prompt"
  taskRunnerLogLevel := rowText builtins rows "task_runner_log_level"
  sshPrivateKey := rowText builtins rows "ssh_private_key"
  gitSshHosts := rowItems rows "git_ssh_hosts"
  hindsightUrl := rowText builtins rows "hindsight_url"
  hindsightBankId := rowText builtins rows "hindsight_bank_id"
  taskProcessingTimeout := rowNumber builtins rows "task_processing_timeout"
  compactionModel := (rows "compaction_model").getD .null
  compactionTimeout := rowNumber builtins rows "compaction_timeout"
  compactionMaxTokens := rowNumber builtins rows "compaction_max_tokens"
  maxContextTokens := rowNumber builtins rows "max_context_tokens"
  maxTurns := (resolveSettingValue builtins env rows "max_turns" maxTurns).1
  reasoningEffort := (resolveSettingValue builtins env rows "reasoning_effort" reasoningEffort).1

/-- `_read_settings`. -/
def readSettings : Option Settings :=
  if numberKeys.any fun key => (rows key).any (raises builtins overflows) then none
  else some (settingsOf builtins env rows)

/-- The variables of the container that settings give. -/
inductive Var where
  | logLevel
  | maxTurns
  | reasoningEffort
  | llmRequestTimeout
  | compactionModel
  | compactionTimeoutSeconds
  | compactionMaxTokens
  | maxContextTokens

def Var.name : Var → String
  | .logLevel => "LOG_LEVEL"
  | .maxTurns => "MAX_TURNS"
  | .reasoningEffort => "REASONING_EFFORT"
  | .llmRequestTimeout => "LLM_REQUEST_TIMEOUT"
  | .compactionModel => "COMPACTION_MODEL"
  | .compactionTimeoutSeconds => "COMPACTION_TIMEOUT_SECONDS"
  | .compactionMaxTokens => "COMPACTION_MAX_TOKENS"
  | .maxContextTokens => "MAX_CONTEXT_TOKENS"

def Var.key : Var → String
  | .logLevel => "task_runner_log_level"
  | .maxTurns => "max_turns"
  | .reasoningEffort => "reasoning_effort"
  | .llmRequestTimeout => "task_processing_timeout"
  | .compactionModel => "compaction_model"
  | .compactionTimeoutSeconds => "compaction_timeout"
  | .compactionMaxTokens => "compaction_max_tokens"
  | .maxContextTokens => "max_context_tokens"

/-- The setting's entry in the registry. -/
def Var.info : Var → Meta
  | .logLevel => taskRunnerLogLevel
  | .maxTurns => SettingsRegistry.maxTurns
  | .reasoningEffort => SettingsRegistry.reasoningEffort
  | .llmRequestTimeout => taskProcessingTimeout
  | .compactionModel => SettingsRegistry.compactionModel
  | .compactionTimeoutSeconds => compactionTimeout
  | .compactionMaxTokens => SettingsRegistry.compactionMaxTokens
  | .maxContextTokens => SettingsRegistry.maxContextTokens

def ifTruthy (value : Json) : Option Json := if value.truthy then some value else none

/-- The model's name of the setting, which is an object or the name itself. -/
def selected : Json → Json
  | .obj fields => modelOf (.obj fields)
  | value => value

def compactionModelOf (setting : Json) : Option Json :=
  if (selected setting).truthy then some (.str (text builtins (selected setting))) else none

def envOr (name : String) (setting : Option Json) : Option Json :=
  match setIn env name with
  | some s => some (.str s)
  | none => setting

/-- What `_process_task` assigns to a variable for its setting. -/
def assigned (settings : Settings) : Var → Option Json
  | .logLevel =>
    let level := orText settings.taskRunnerLogLevel ((env "TASK_RUNNER_LOG_LEVEL").getD "")
    if level = "" then none else some (.str level)
  | .maxTurns => ifTruthy settings.maxTurns
  | .reasoningEffort => ifTruthy settings.reasoningEffort
  | .llmRequestTimeout => some (.int (settings.taskProcessingTimeout.getD 30))
  | .compactionModel => envOr env "COMPACTION_MODEL" (compactionModelOf builtins settings.compactionModel)
  | .compactionTimeoutSeconds => envOr env "COMPACTION_TIMEOUT_SECONDS" (settings.compactionTimeout.map .int)
  | .compactionMaxTokens => envOr env "COMPACTION_MAX_TOKENS" (settings.compactionMaxTokens.map .int)
  | .maxContextTokens => envOr env "MAX_CONTEXT_TOKENS" (settings.maxContextTokens.map .int)

/-- A credential's key and value, if it has both. -/
def credential (item : Json) : Option (Json × Json) :=
  (item.get? "key").bind fun key => (item.get? "value").map fun value => (key, value)

def unhashable (credentials : List Json) : Bool :=
  credentials.any fun item => (credential item).any fun entry => entry.1.key?.isNone

/-- The variable among the credentials, the last one of its name. -/
def credentialFor (credentials : List Json) (name : String) : Option Json :=
  credentials.foldl (fun found item =>
    match credential item with
    | some (.str key, value) => if key = name then some value else found
    | _ => found) none

/-- What of the settings a task runs with. -/
structure Used where
  systemPrompt : String
  gitSshHosts : Option (List Json)
  hindsightUrl : String
  hindsightBankId : String
  passed : Var → Option Json

def usedOf (settings : Settings) : Used where
  systemPrompt := settings.systemPrompt
  gitSshHosts := if settings.sshPrivateKey = "" then none else some settings.gitSshHosts
  hindsightUrl := (setIn env "HINDSIGHT_URL").getD settings.hindsightUrl
  hindsightBankId := (setIn env "HINDSIGHT_BANK_ID").getD (orText settings.hindsightBankId "errand-tasks")
  passed v := (own v.name).or ((assigned builtins env settings v).or (credentialFor settings.credentials v.name))

/-- `_process_task`, up to the container; `own` is the task's own environment. -/
def processTask (settings : Settings) : Option Used :=
  if unhashable settings.credentials then none else some (usedOf builtins env own settings)

/-! ## Agreement -/

/-- The value that GET /api/settings reports. -/
def shown (key : String) : Option Json := ((resolveSettings builtins env rows).lookup key).map Resolved.value

/-- The name of the model that is selected. -/
def modelName (value : Json) : String := textOrEmpty builtins (modelOf value)

/-- `int` of the text that is passed. -/
def number : Json → Option Int
  | .int n => some n
  | .str s => PyStr.int? s.toList
  | _ => none

/-- What is passed stands for the value: as a number, as a model's name, or as the text it is. -/
def Stands (value passed : Json) : Prop :=
  match value with
  | .int n => number passed = some n
  | .obj fields => modelName builtins (.obj fields) = text builtins passed
  | value => value = .str (text builtins passed)

def Var.default (v : Var) : Json :=
  match v.info.default with
  | .obj fields => .str (modelName builtins (.obj fields))
  | value => value

def Shows (v : Var) (passed : Json) : Prop :=
  ∃ value, shown builtins env rows v.key = some value ∧ Stands builtins value passed

/-- What the page shows is what the task runs with. -/
structure Agrees (used : Used) : Prop where
  systemPrompt : shown builtins env rows "system_prompt" = some (.str used.systemPrompt)
  gitSshHosts : ∀ hosts, used.gitSshHosts = some hosts → shown builtins env rows "git_ssh_hosts" = some (.arr hosts)
  hindsightUrl : shown builtins env rows "hindsight_url" = some (.str used.hindsightUrl)
  hindsightBankId : shown builtins env rows "hindsight_bank_id" = some (.str used.hindsightBankId)
  passed : ∀ v, Shows builtins env rows v ((used.passed v).getD (v.default builtins))

/-! ## When they agree -/

/-- The number settings that are stored can be read, and the credentials be made variables. -/
def runs : Bool :=
  !(numberKeys.any fun key => (rows key).any (raises builtins overflows)) && !unhashable (rowItems rows "credentials")

/-- A stored text that is empty, or a value whose truth is false, reads as the fallback. -/
def TextKept (row : Option Json) (fallback default : String) : Prop :=
  match row with
  | none => fallback = default
  | some value => textOrEmpty builtins value = "" → text builtins value = fallback

/-- No stored number is zero or negative, and none is `true`. -/
def NumberKept (row : Option Json) : Prop :=
  ∀ value, row = some value → value ≠ .bool true ∧ ∀ n, toInt builtins value = some n → 0 < n

def NumberVarKept (name : String) (row : Option Json) : Prop :=
  match setIn env name with
  | some s => (PyStr.int? s.toList).isSome
  | none => NumberKept builtins row

/-- The model's name in the object that a text decodes to. -/
def nameIn (s : String) : String :=
  match builtins.loads s with
  | some (.obj fields) => modelName builtins (.obj fields)
  | _ => ""

/-- A stored model is an object, or a text that is shown as the name it is used as. -/
def ModelKept : Json → Prop
  | .obj _ => True
  | .str s => nameIn builtins s = s
  | value => textOrEmpty builtins value = ""

def HostsKept (row : Option Json) : Prop :=
  match row with
  | some (.arr _) => True
  | some (.str s) => builtins.loads s = some (.arr [])
  | _ => False

def Kept : Var → Prop
  | .logLevel =>
    TextKept builtins (rows "task_runner_log_level") ((setIn env "TASK_RUNNER_LOG_LEVEL").getD "INFO") "INFO"
  | .maxTurns =>
    match setIn env "MAX_TURNS" with
    | some s => PyStr.int? s.toList ≠ some 0
    | none => ∀ value, rows "max_turns" = some value → toInt builtins value ≠ some 0
  | .reasoningEffort =>
    setIn env "REASONING_EFFORT" = none → ∀ value, rows "reasoning_effort" = some value → text builtins value ≠ ""
  | .llmRequestTimeout => NumberKept builtins (rows "task_processing_timeout")
  | .compactionModel =>
    match setIn env "COMPACTION_MODEL" with
    | some s => nameIn builtins s = s
    | none => ∀ value, rows "compaction_model" = some value → ModelKept builtins value
  | .compactionTimeoutSeconds => NumberVarKept builtins env "COMPACTION_TIMEOUT_SECONDS" (rows "compaction_timeout")
  | .compactionMaxTokens => NumberVarKept builtins env "COMPACTION_MAX_TOKENS" (rows "compaction_max_tokens")
  | .maxContextTokens => NumberVarKept builtins env "MAX_CONTEXT_TOKENS" (rows "max_context_tokens")

/-- What gives a variable in the setting's place: the task's own environment, or a credential
    where the setting leaves it unset. -/
def replaced (v : Var) : Option Json :=
  (own v.name).or
    (match assigned builtins env (settingsOf builtins env rows) v with
    | some _ => none
    | none => credentialFor (rowItems rows "credentials") v.name)

structure Sound : Prop where
  systemPrompt : TextKept builtins (rows "system_prompt") "" ""
  gitSshHosts : rowText builtins rows "ssh_private_key" ≠ "" → HostsKept builtins (rows "git_ssh_hosts")
  hindsightUrl : setIn env "HINDSIGHT_URL" = none → TextKept builtins (rows "hindsight_url") "" ""
  hindsightBankId :
    setIn env "HINDSIGHT_BANK_ID" = none → TextKept builtins (rows "hindsight_bank_id") "errand-tasks" "errand-tasks"
  kept : ∀ v, replaced builtins env rows own v = none → Kept builtins env rows v
  /-- What is given in a setting's place is what the setting is. -/
  replaced : ∀ v p, replaced builtins env rows own v = some p → Shows builtins env rows v p

end Definitions

section Shown

variable {builtins : Builtins} {env : String → Option String} {rows : String → Option Json}

theorem shown_var (v : Var) :
    shown builtins env rows v.key = some (resolveSetting builtins env rows v.key v.info).value := by
  cases v <;> rfl

/-- A setting that is neither sensitive nor a model is reported as it resolves. -/
theorem resolveSetting_value {key : String} {info : Meta} (hs : info.sensitive = false)
    (hk : modelSettingKeys.contains key = false) :
    (resolveSetting builtins env rows key info).value = (resolveSettingValue builtins env rows key info).1 := by
  rw [resolveSetting, hk]
  rcases resolveSettingValue builtins env rows key info with ⟨value, source⟩
  simp [hs]

theorem resolveSetting_model {key : String} {info : Meta} (hs : info.sensitive = false)
    (hk : modelSettingKeys.contains key = true) :
    (resolveSetting builtins env rows key info).value =
      normalizeModelSettingValue (resolveSettingValue builtins env rows key info).1 := by
  rw [resolveSetting, hk]
  rcases resolveSettingValue builtins env rows key info with ⟨value, source⟩
  simp [hs]

/-- The value a setting has before it is coerced: the variable's text, or the row's. -/
def raw (env : String → Option String) (rows : String → Option Json) (key : String) (info : Meta) : Option Json :=
  ((envText env info).map .str).or (rows key)

theorem resolve_raw (key : String) (info : Meta) :
    (resolveSettingValue builtins env rows key info).1 =
      (raw env rows key info).elim info.default fun value =>
        (coerce builtins value info.default).getD info.default := by
  have hcoerce : ∀ value source, (coerceOr builtins value info source).1 =
      (coerce builtins value info.default).getD info.default := by
    intro value source
    rw [coerceOr]
    cases coerce builtins value info.default <;> rfl
  cases henv : envText env info with
  | some s =>
    rw [resolve_env henv, hcoerce, raw, henv]
    rfl
  | none =>
    cases hrow : rows key with
    | none =>
      rw [resolve_default henv hrow, raw, henv, hrow]
      rfl
    | some value =>
      rw [resolve_row henv hrow, hcoerce, raw, henv, hrow]
      rfl

theorem resolve_text {key d : String} {info : Meta} (h : info.default = .str d) :
    (resolveSettingValue builtins env rows key info).1 = .str ((raw env rows key info).elim d (text builtins)) := by
  rw [resolve_raw, h]
  cases raw env rows key info with
  | none => rfl
  | some value => cases value <;> rfl

theorem resolve_number {key : String} {info : Meta} {d : Int} (h : info.default = .int d) :
    (resolveSettingValue builtins env rows key info).1 =
      .int (((raw env rows key info).bind (toInt builtins)).getD d) := by
  rw [resolve_raw, h]
  cases raw env rows key info with
  | none => rfl
  | some value =>
    show ((toInt builtins value).map Json.int).getD (.int d) = .int ((toInt builtins value).getD d)
    cases toInt builtins value <;> rfl

/-- An object is what a stored object is, or a text decodes to. -/
def objectOf (builtins : Builtins) : Json → Json
  | .obj fields => .obj fields
  | .str s =>
    match builtins.loads s with
    | some (.obj fields) => .obj fields
    | _ => noModel
  | _ => noModel

theorem resolve_model (key : String) {info : Meta} (h : info.default = noModel) :
    (resolveSettingValue builtins env rows key info).1 = (raw env rows key info).elim noModel (objectOf builtins) := by
  rw [resolve_raw, h]
  cases raw env rows key info with
  | none => rfl
  | some value =>
    cases value with
    | str s =>
      show ((builtins.loads s).filter fun j => j matches .obj _).getD noModel = _
      rw [Option.elim_some, objectOf]
      cases builtins.loads s with
      | none => rfl
      | some value => cases value <;> rfl
    | _ => rfl

theorem modelOf_set (fields : List (String × Json)) (model : Json) :
    modelOf (((Json.obj fields).set "model" model).set "model_id" model) = model := by
  have hid : (((Json.obj fields).set "model" model).set "model_id" model).get? "model_id" = some model :=
    Json.lookup_setField_self ..
  have hmodel : (((Json.obj fields).set "model" model).set "model_id" model).get? "model" = some model := by
    rw [Json.get?_set_other _ (by decide)]
    exact Json.lookup_setField_self ..
  rw [modelOf, hmodel, hid]
  exact ite_self _

/-- The two fields of a model that are kept in sync name the model that was named. -/
theorem modelOf_normalize (value : Json) : modelOf (normalizeModelSettingValue value) = modelOf value := by
  cases value with
  | obj fields =>
    unfold normalizeModelSettingValue
    dsimp only
    split
    · rfl
    · exact modelOf_set ..
  | _ => rfl

end Shown

section Texts

variable {builtins : Builtins} {env : String → Option String}

theorem setIn_ne {name s : String} (h : setIn env name = some s) : s ≠ "" :=
  of_decide_eq_true (Option.filter_eq_some_iff.mp h).2

theorem getD_setIn (name d : String) : orText ((env name).getD "") d = (setIn env name).getD d := by
  cases h : env name with
  | none => rw [setIn, h]; rfl
  | some s =>
    rw [setIn, h, orText, Option.filter_some]
    by_cases hs : s = ""
    · simp [hs]
    · simp [hs]

theorem orText_empty (s : String) : orText s "" = s := by
  rw [orText]
  split
  · rename_i h
    exact h.symm
  · rfl

theorem orText_assoc (s t u : String) : orText (orText s t) u = orText s (orText t u) := by
  unfold orText
  by_cases hs : s = ""
  · simp [hs]
  · simp [hs]

theorem textOrEmpty_eq {value : Json} (h : textOrEmpty builtins value ≠ "") :
    textOrEmpty builtins value = text builtins value := by
  rw [textOrEmpty] at h ⊢
  split at h
  · rename_i ht
    rw [if_pos ht]
  · exact absurd rfl h

theorem text_iff (row : Option Json) (fallback d : String) :
    row.elim d (text builtins) = orText (row.elim "" (textOrEmpty builtins)) fallback ↔
      TextKept builtins row fallback d := by
  cases row with
  | none => exact eq_comm
  | some value =>
    show text builtins value = orText (textOrEmpty builtins value) fallback ↔
      (textOrEmpty builtins value = "" → text builtins value = fallback)
    by_cases h : textOrEmpty builtins value = ""
    · rw [h, orText, if_pos rfl]
      exact ⟨fun heq _ => heq, fun heq => heq rfl⟩
    · rw [orText, if_neg h, textOrEmpty_eq h]
      exact iff_of_true rfl fun hempty => absurd ((textOrEmpty_eq h).trans hempty) h

/-- A text setting with a variable: the variable's text, and else as the row has it. -/
theorem text_env_iff (e : Option String) (row : Option Json) (fallback d : String) :
    ((e.map Json.str).or row).elim d (text builtins) = e.getD (orText (row.elim "" (textOrEmpty builtins)) fallback) ↔
      (e = none → TextKept builtins row fallback d) := by
  cases e with
  | none => exact (text_iff row fallback d).trans ⟨fun h _ => h, fun h => h rfl⟩
  | some s => exact iff_of_true rfl nofun

end Texts

section Numbers

variable {builtins : Builtins} {env : String → Option String} {rows : String → Option Json}

theorem toNumber_eq {value : Json} (h : ∀ b, value ≠ .bool b) : toNumber builtins value = toInt builtins value := by
  cases value with
  | bool b => exact absurd rfl (h b)
  | _ => rfl

/-- The number used is the one shown exactly if the row's is positive and no bool counts as one. -/
theorem number_iff {key : String} {d : Int} (hd : 1 < d) :
    (rowNumber builtins rows key).getD d = ((rows key).bind (toInt builtins)).getD d ↔
      NumberKept builtins (rows key) := by
  rw [rowNumber]
  cases hrow : rows key with
  | none => exact iff_of_true rfl nofun
  | some value =>
    have hkept : NumberKept builtins (some value) ↔ value ≠ .bool true ∧ ∀ n, toInt builtins value = some n → 0 < n :=
      ⟨fun h => h value rfl, by rintro h _ ⟨⟩; exact h⟩
    rw [hkept]
    show ((toNumber builtins value).filter (0 < ·)).getD d = (toInt builtins value).getD d ↔ _
    by_cases hbool : ∃ b, value = .bool b
    · obtain ⟨b, rfl⟩ := hbool
      cases b with
      | true =>
        refine iff_of_false (fun h => ?_) fun h => h.1 rfl
        have h : (1 : Int) = d := h
        omega
      | false => exact iff_of_true rfl ⟨nofun, nofun⟩
    · rw [toNumber_eq fun b h => hbool ⟨b, h⟩, and_iff_right fun h => hbool ⟨true, h⟩]
      cases toInt builtins value with
      | none => exact iff_of_true rfl nofun
      | some n =>
        have hn : (∀ m, some n = some m → 0 < m) ↔ 0 < n := ⟨fun h => h n rfl, by rintro h _ ⟨⟩; exact h⟩
        rw [hn]
        by_cases hpos : 0 < n
        · rw [Option.filter_some, if_pos (decide_eq_true hpos)]
          exact iff_of_true rfl hpos
        · rw [Option.filter_some, if_neg (by simpa using hpos)]
          refine iff_of_false (fun h => ?_) hpos
          have h : d = n := h
          omega

end Numbers

section Models

variable {builtins : Builtins}

/-- What is shown of a model stands for its name. -/
theorem stands_model {value : Json} (h : ∃ fields, value = .obj fields) (p : Json) :
    Stands builtins (normalizeModelSettingValue value) p ↔ modelName builtins value = text builtins p := by
  obtain ⟨fields, rfl⟩ := h
  have hname : modelName builtins (normalizeModelSettingValue (.obj fields)) = modelName builtins (.obj fields) := by
    rw [modelName, modelOf_normalize]
    rfl
  rw [← hname]
  unfold normalizeModelSettingValue
  dsimp only
  split <;> exact Iff.rfl

theorem objectOf_obj (value : Json) : ∃ fields, objectOf builtins value = .obj fields := by
  cases value with
  | obj fields => exact ⟨fields, rfl⟩
  | str s =>
    rw [objectOf]
    split
    · rename_i fields _
      exact ⟨fields, rfl⟩
    · exact ⟨_, rfl⟩
  | _ => exact ⟨_, rfl⟩

theorem modelName_objectOf (s : String) : modelName builtins (objectOf builtins (.str s)) = nameIn builtins s := by
  rw [objectOf, nameIn]
  split <;> rfl

/-- The name that is passed for a model setting, empty where none is. -/
theorem text_compactionModelOf (value : Json) :
    text builtins ((compactionModelOf builtins value).getD (.str "")) = textOrEmpty builtins (selected value) := by
  rw [compactionModelOf, textOrEmpty]
  split <;> rfl

theorem textOrEmpty_str (s : String) : textOrEmpty builtins (.str s) = s := by
  rw [textOrEmpty]
  split
  · rfl
  · rename_i h
    have hs : s.isEmpty = true := by simpa [Json.truthy] using h
    exact (String.isEmpty_iff.mp hs).symm

theorem model_iff (e : Option String) (row : Option Json) :
    modelName builtins (((e.map Json.str).or row).elim noModel (objectOf builtins)) =
        text builtins (((e.map Json.str).or (compactionModelOf builtins (row.getD .null))).getD (.str "")) ↔
      (match e with
        | some s => nameIn builtins s = s
        | none => ∀ value, row = some value → ModelKept builtins value) := by
  cases e with
  | some s =>
    show modelName builtins (objectOf builtins (.str s)) = s ↔ nameIn builtins s = s
    rw [modelName_objectOf]
  | none =>
    cases row with
    | none => exact iff_of_true rfl nofun
    | some value =>
      show modelName builtins (objectOf builtins value) =
          text builtins ((compactionModelOf builtins value).getD (.str "")) ↔
        ∀ other, some value = some other → ModelKept builtins other
      have hkept : (∀ other, some value = some other → ModelKept builtins other) ↔ ModelKept builtins value :=
        ⟨fun h => h value rfl, by rintro h _ ⟨⟩; exact h⟩
      rw [hkept, text_compactionModelOf]
      cases value with
      | obj fields => exact iff_of_true rfl trivial
      | str s =>
        show modelName builtins (objectOf builtins (.str s)) = textOrEmpty builtins (.str s) ↔ _
        rw [modelName_objectOf, textOrEmpty_str]
        exact Iff.rfl
      | _ => exact eq_comm

end Models

section Variables

variable {builtins : Builtins} {env : String → Option String} {rows : String → Option Json}

theorem envOr_eq (name : String) (setting : Option Json) :
    envOr env name setting = ((setIn env name).map .str).or setting := by
  rw [envOr]
  cases setIn env name <;> rfl

theorem shows_iff {v : Var} {value : Json} (h : (resolveSetting builtins env rows v.key v.info).value = value)
    (p : Json) : Shows builtins env rows v p ↔ Stands builtins value p := by
  rw [Shows, shown_var, h]
  exact ⟨fun ⟨_, heq, hs⟩ => Option.some.inj heq ▸ hs, fun hs => ⟨value, rfl, hs⟩⟩

theorem stands_text (s : String) (p : Json) : Stands builtins (.str s) p ↔ s = text builtins p :=
  ⟨fun h => Json.str.inj h, fun h => congrArg Json.str h⟩

theorem logLevel_iff :
    Shows builtins env rows .logLevel
        ((assigned builtins env (settingsOf builtins env rows) .logLevel).getD (Var.logLevel.default builtins)) ↔
      Kept builtins env rows .logLevel := by
  have hvalue : (resolveSetting builtins env rows Var.logLevel.key Var.logLevel.info).value =
      .str ((rows "task_runner_log_level").elim "INFO" (text builtins)) :=
    (resolveSetting_value rfl rfl).trans (resolve_text rfl)
  rw [shows_iff hvalue, stands_text]
  have hlevel : ∀ level : String,
      text builtins ((if level = "" then none else some (.str level)).getD (.str "INFO")) = orText level "INFO" := by
    intro level
    rw [orText]
    split <;> rfl
  have hpassed : text builtins
      ((assigned builtins env (settingsOf builtins env rows) .logLevel).getD (Var.logLevel.default builtins)) =
      orText (rowText builtins rows "task_runner_log_level") ((setIn env "TASK_RUNNER_LOG_LEVEL").getD "INFO") := by
    rw [← getD_setIn, ← orText_assoc]
    exact hlevel _
  rw [hpassed]
  exact text_iff (rows "task_runner_log_level") _ "INFO"

/-- A number that is passed unless it is zero. -/
theorem ifTruthy_number (n d : Int) :
    Stands builtins (.int n) ((ifTruthy (.int n)).getD (.int d)) ↔ n = 0 → d = 0 := by
  show number ((if (n != 0) = true then some (Json.int n) else none).getD (.int d)) = some n ↔ _
  by_cases hn : n = 0
  · subst hn
    exact ⟨fun h _ => Option.some.inj h, fun h => congrArg some (h rfl)⟩
  · rw [if_pos (by simpa using hn)]
    exact iff_of_true rfl fun h => absurd h hn

theorem maxTurns_iff :
    Shows builtins env rows .maxTurns
        ((assigned builtins env (settingsOf builtins env rows) .maxTurns).getD (Var.maxTurns.default builtins)) ↔
      Kept builtins env rows .maxTurns := by
  have hresolved : (resolveSettingValue builtins env rows "max_turns" SettingsRegistry.maxTurns).1 =
      .int (((((setIn env "MAX_TURNS").map Json.str).or (rows "max_turns")).bind (toInt builtins)).getD 200) :=
    resolve_number rfl
  have hvalue : (resolveSetting builtins env rows Var.maxTurns.key Var.maxTurns.info).value = _ :=
    (resolveSetting_value rfl rfl).trans hresolved
  rw [shows_iff hvalue]
  show Stands builtins _
    ((ifTruthy (resolveSettingValue builtins env rows "max_turns" SettingsRegistry.maxTurns).1).getD (.int 200)) ↔ _
  rw [hresolved, ifTruthy_number]
  have hzero : ∀ o : Option Int, (o.getD 200 = 0 → (200 : Int) = 0) ↔ o ≠ some 0 := by
    intro o
    cases o <;> simp
  rw [hzero]
  show ((((setIn env "MAX_TURNS").map Json.str).or (rows "max_turns")).bind (toInt builtins)) ≠ some 0 ↔
    (match setIn env "MAX_TURNS" with
      | some s => PyStr.int? s.toList ≠ some 0
      | none => ∀ value, rows "max_turns" = some value → toInt builtins value ≠ some 0)
  cases setIn env "MAX_TURNS" with
  | some s => exact Iff.rfl
  | none =>
    cases rows "max_turns" with
    | none => exact iff_of_true nofun nofun
    | some value => exact ⟨fun h _ hv => Option.some.inj hv ▸ h, fun h => h value rfl⟩

theorem ifTruthy_text (s d : String) :
    Stands builtins (.str s) ((ifTruthy (.str s)).getD (.str d)) ↔ s = "" → d = "" := by
  rw [stands_text]
  show s = text builtins ((if (!s.isEmpty) = true then some (Json.str s) else none).getD (.str d)) ↔ _
  by_cases hs : s = ""
  · subst hs
    exact ⟨fun h _ => h.symm, fun h => (h rfl).symm⟩
  · rw [if_pos (by simpa using hs)]
    exact iff_of_true rfl fun h => absurd h hs

theorem reasoningEffort_iff :
    Shows builtins env rows .reasoningEffort
        ((assigned builtins env (settingsOf builtins env rows) .reasoningEffort).getD
          (Var.reasoningEffort.default builtins)) ↔
      Kept builtins env rows .reasoningEffort := by
  have hresolved : (resolveSettingValue builtins env rows "reasoning_effort" SettingsRegistry.reasoningEffort).1 =
      .str ((((setIn env "REASONING_EFFORT").map Json.str).or (rows "reasoning_effort")).elim "medium"
        (text builtins)) :=
    resolve_text rfl
  have hvalue : (resolveSetting builtins env rows Var.reasoningEffort.key Var.reasoningEffort.info).value = _ :=
    (resolveSetting_value rfl rfl).trans hresolved
  rw [shows_iff hvalue]
  show Stands builtins _
    ((ifTruthy (resolveSettingValue builtins env rows "reasoning_effort" SettingsRegistry.reasoningEffort).1).getD
      (.str "medium")) ↔ _
  rw [hresolved, ifTruthy_text]
  show ((((setIn env "REASONING_EFFORT").map Json.str).or (rows "reasoning_effort")).elim "medium"
      (text builtins) = "" → "medium" = "") ↔
    (setIn env "REASONING_EFFORT" = none → ∀ value, rows "reasoning_effort" = some value → text builtins value ≠ "")
  cases henv : setIn env "REASONING_EFFORT" with
  | some s => exact iff_of_true (fun h => absurd h (setIn_ne henv)) nofun
  | none =>
    cases rows "reasoning_effort" with
    | none => exact iff_of_true id nofun
    | some value =>
      have hdefault : ¬ "medium" = "" := by decide
      exact ⟨fun h _ _ hv ht => hdefault (h (Option.some.inj hv ▸ ht)), fun h ht => absurd ht (h rfl value rfl)⟩

theorem llmRequestTimeout_iff :
    Shows builtins env rows .llmRequestTimeout
        ((assigned builtins env (settingsOf builtins env rows) .llmRequestTimeout).getD
          (Var.llmRequestTimeout.default builtins)) ↔
      Kept builtins env rows .llmRequestTimeout := by
  rw [shows_iff ((resolveSetting_value rfl rfl).trans (resolve_number rfl))]
  show some ((rowNumber builtins rows "task_processing_timeout").getD 30) =
      some (((rows "task_processing_timeout").bind (toInt builtins)).getD 30) ↔ _
  rw [Option.some_inj]
  exact number_iff (by decide)

/-- A number of the environment or of a row: shown as it is passed, or as the default. -/
theorem numberVar_iff (name key : String) {d : Int} (hd : 1 < d) :
    Stands builtins (.int (((((setIn env name).map Json.str).or (rows key)).bind (toInt builtins)).getD d))
        ((envOr env name ((rowNumber builtins rows key).map .int)).getD (.int d)) ↔
      NumberVarKept builtins env name (rows key) := by
  rw [envOr_eq, NumberVarKept]
  cases setIn env name with
  | some s =>
    show PyStr.int? s.toList = some ((PyStr.int? s.toList).getD d) ↔ (PyStr.int? s.toList).isSome = true
    cases PyStr.int? s.toList with
    | none => exact iff_of_false nofun nofun
    | some n => exact iff_of_true rfl rfl
  | none =>
    have hpassed : number (((rowNumber builtins rows key).map Json.int).getD (.int d)) =
        some ((rowNumber builtins rows key).getD d) := by
      cases rowNumber builtins rows key <;> rfl
    show number (((rowNumber builtins rows key).map Json.int).getD (.int d)) =
      some (((rows key).bind (toInt builtins)).getD d) ↔ NumberKept builtins (rows key)
    rw [hpassed, Option.some_inj]
    exact number_iff hd

theorem compactionModel_iff :
    Shows builtins env rows .compactionModel
        ((assigned builtins env (settingsOf builtins env rows) .compactionModel).getD
          (Var.compactionModel.default builtins)) ↔
      Kept builtins env rows .compactionModel := by
  have hvalue : (resolveSetting builtins env rows Var.compactionModel.key Var.compactionModel.info).value =
      normalizeModelSettingValue ((((setIn env "COMPACTION_MODEL").map Json.str).or (rows "compaction_model")).elim
        noModel (objectOf builtins)) :=
    (resolveSetting_model rfl rfl).trans
      (congrArg normalizeModelSettingValue (resolve_model "compaction_model" rfl))
  have hobj : ∃ fields, (((setIn env "COMPACTION_MODEL").map Json.str).or (rows "compaction_model")).elim noModel
      (objectOf builtins) = .obj fields := by
    cases ((setIn env "COMPACTION_MODEL").map Json.str).or (rows "compaction_model") with
    | none => exact ⟨_, rfl⟩
    | some value => exact objectOf_obj value
  rw [shows_iff hvalue, stands_model hobj]
  show _ = text builtins ((envOr env "COMPACTION_MODEL" (compactionModelOf builtins
    ((rows "compaction_model").getD .null))).getD (.str "")) ↔ _
  rw [envOr_eq]
  exact model_iff _ _

/-- What is assigned for a setting, or the default, is what the page shows exactly if the
    setting is kept. -/
theorem assigned_iff (v : Var) :
    Shows builtins env rows v
        ((assigned builtins env (settingsOf builtins env rows) v).getD (v.default builtins)) ↔
      Kept builtins env rows v := by
  cases v with
  | logLevel => exact logLevel_iff
  | maxTurns => exact maxTurns_iff
  | reasoningEffort => exact reasoningEffort_iff
  | llmRequestTimeout => exact llmRequestTimeout_iff
  | compactionModel => exact compactionModel_iff
  | compactionTimeoutSeconds =>
    rw [shows_iff ((resolveSetting_value rfl rfl).trans (resolve_number rfl))]
    exact numberVar_iff "COMPACTION_TIMEOUT_SECONDS" "compaction_timeout" (by decide)
  | compactionMaxTokens =>
    rw [shows_iff ((resolveSetting_value rfl rfl).trans (resolve_number rfl))]
    exact numberVar_iff "COMPACTION_MAX_TOKENS" "compaction_max_tokens" (by decide)
  | maxContextTokens =>
    rw [shows_iff ((resolveSetting_value rfl rfl).trans (resolve_number rfl))]
    exact numberVar_iff "MAX_CONTEXT_TOKENS" "max_context_tokens" (by decide)

end Variables

section Agreement

variable {builtins : Builtins} {env : String → Option String} {rows : String → Option Json}

theorem shown_text {key d : String} (info : Meta)
    (hshown : shown builtins env rows key = some (resolveSetting builtins env rows key info).value)
    (hs : info.sensitive = false) (hk : modelSettingKeys.contains key = false) (hd : info.default = .str d)
    (s : String) :
    shown builtins env rows key = some (.str s) ↔ (raw env rows key info).elim d (text builtins) = s := by
  rw [hshown, resolveSetting_value hs hk, resolve_text hd, Option.some_inj]
  exact ⟨Json.str.inj, congrArg Json.str⟩

theorem systemPrompt_iff :
    shown builtins env rows "system_prompt" = some (.str (rowText builtins rows "system_prompt")) ↔
      TextKept builtins (rows "system_prompt") "" "" := by
  rw [shown_text systemPrompt rfl rfl rfl rfl, ← text_iff, orText_empty]
  exact Iff.rfl

theorem hindsightUrl_iff :
    shown builtins env rows "hindsight_url" =
        some (.str ((setIn env "HINDSIGHT_URL").getD (rowText builtins rows "hindsight_url"))) ↔
      (setIn env "HINDSIGHT_URL" = none → TextKept builtins (rows "hindsight_url") "" "") := by
  rw [shown_text hindsightUrl rfl rfl rfl rfl, ← text_env_iff, orText_empty]
  exact Iff.rfl

theorem hindsightBankId_iff :
    shown builtins env rows "hindsight_bank_id" =
        some (.str ((setIn env "HINDSIGHT_BANK_ID").getD
          (orText (rowText builtins rows "hindsight_bank_id") "errand-tasks"))) ↔
      (setIn env "HINDSIGHT_BANK_ID" = none →
        TextKept builtins (rows "hindsight_bank_id") "errand-tasks" "errand-tasks") := by
  rw [shown_text hindsightBankId rfl rfl rfl rfl, ← text_env_iff]
  exact Iff.rfl

/-- The hosts of a row are shown, or decoded where they are text; only the first are used. -/
theorem hosts_iff :
    shown builtins env rows "git_ssh_hosts" = some (.arr (rowItems rows "git_ssh_hosts")) ↔
      HostsKept builtins (rows "git_ssh_hosts") := by
  have hshown : shown builtins env rows "git_ssh_hosts" =
      some ((rows "git_ssh_hosts").elim gitSshHosts.default fun value =>
        (coerce builtins value gitSshHosts.default).getD gitSshHosts.default) :=
    congrArg some ((resolveSetting_value rfl rfl).trans (resolve_raw "git_ssh_hosts" gitSshHosts))
  have hdefault : gitSshHosts.default ≠ .arr [] := by rintro ⟨⟩
  rw [hshown, Option.some_inj, rowItems]
  cases rows "git_ssh_hosts" with
  | none => exact iff_of_false hdefault id
  | some value =>
    cases value with
    | arr items => exact iff_of_true rfl trivial
    | str s =>
      show (Option.filter _ (builtins.loads s)).getD gitSshHosts.default = .arr [] ↔
        builtins.loads s = some (.arr [])
      cases builtins.loads s with
      | none => exact iff_of_false hdefault (by rintro ⟨⟩)
      | some value =>
        cases value with
        | arr items => exact Option.some_inj.symm
        | _ => exact iff_of_false hdefault (by rintro ⟨⟩)
    | _ => exact iff_of_false hdefault id

/-- What is passed is what the page shows exactly if the setting is kept where nothing
    replaces it, and what replaces it is what it is. -/
theorem passed_iff (own : String → Option Json) (v : Var) :
    Shows builtins env rows v
        (((usedOf builtins env own (settingsOf builtins env rows)).passed v).getD (v.default builtins)) ↔
      (replaced builtins env rows own v = none → Kept builtins env rows v) ∧
        ∀ p, replaced builtins env rows own v = some p → Shows builtins env rows v p := by
  have hcore : Shows builtins env rows v
      ((assigned builtins env (settingsOf builtins env rows) v).getD (v.default builtins)) ↔ Kept builtins env rows v :=
    assigned_iff v
  show Shows builtins env rows v
    (((own v.name).or ((assigned builtins env (settingsOf builtins env rows) v).or
      (credentialFor (rowItems rows "credentials") v.name))).getD (v.default builtins)) ↔ _
  have hgiven : ∀ p : Json, Shows builtins env rows v p ↔
      (some p = none → Kept builtins env rows v) ∧ ∀ q, some p = some q → Shows builtins env rows v q := by
    intro p
    exact ⟨fun h => ⟨nofun, by rintro _ ⟨⟩; exact h⟩, fun h => h.2 p rfl⟩
  have hkept : ∀ p : Json, (Shows builtins env rows v p ↔ Kept builtins env rows v) →
      (Shows builtins env rows v p ↔ ((none : Option Json) = none → Kept builtins env rows v) ∧
        ∀ q, (none : Option Json) = some q → Shows builtins env rows v q) := by
    intro p hp
    exact hp.trans ⟨fun h => ⟨fun _ => h, nofun⟩, fun h => h.1 rfl⟩
  rw [replaced]
  cases own v.name with
  | some p => exact hgiven p
  | none =>
    cases hassigned : assigned builtins env (settingsOf builtins env rows) v with
    | some a =>
      rw [hassigned] at hcore
      exact hkept a hcore
    | none =>
      rw [hassigned] at hcore
      cases credentialFor (rowItems rows "credentials") v.name with
      | some p => exact hgiven p
      | none => exact hkept _ hcore

theorem agrees_used_iff (own : String → Option Json) :
    Agrees builtins env rows (usedOf builtins env own (settingsOf builtins env rows)) ↔
      Sound builtins env rows own := by
  have hhosts : (∀ hosts, (usedOf builtins env own (settingsOf builtins env rows)).gitSshHosts = some hosts →
      shown builtins env rows "git_ssh_hosts" = some (.arr hosts)) ↔
      (rowText builtins rows "ssh_private_key" ≠ "" → HostsKept builtins (rows "git_ssh_hosts")) := by
    show (∀ hosts, (if rowText builtins rows "ssh_private_key" = "" then none
      else some (rowItems rows "git_ssh_hosts")) = some hosts → _) ↔ _
    by_cases hkey : rowText builtins rows "ssh_private_key" = ""
    · rw [if_pos hkey]
      exact iff_of_true nofun fun h => absurd hkey h
    · rw [if_neg hkey]
      have hused : (∀ hosts, some (rowItems rows "git_ssh_hosts") = some hosts →
          shown builtins env rows "git_ssh_hosts" = some (.arr hosts)) ↔ HostsKept builtins (rows "git_ssh_hosts") :=
        Iff.trans ⟨fun h => h _ rfl, by rintro h _ ⟨⟩; exact h⟩ hosts_iff
      exact hused.trans ⟨fun h _ => h, fun h => h hkey⟩
  constructor
  · intro h
    exact
      { systemPrompt := systemPrompt_iff.mp h.systemPrompt
        gitSshHosts := hhosts.mp h.gitSshHosts
        hindsightUrl := hindsightUrl_iff.mp h.hindsightUrl
        hindsightBankId := hindsightBankId_iff.mp h.hindsightBankId
        kept := fun v => ((passed_iff own v).mp (h.passed v)).1
        replaced := fun v => ((passed_iff own v).mp (h.passed v)).2 }
  · intro h
    exact
      { systemPrompt := systemPrompt_iff.mpr h.systemPrompt
        gitSshHosts := hhosts.mpr h.gitSshHosts
        hindsightUrl := hindsightUrl_iff.mpr h.hindsightUrl
        hindsightBankId := hindsightBankId_iff.mpr h.hindsightBankId
        passed := fun v => (passed_iff own v).mpr ⟨h.kept v, h.replaced v⟩ }

end Agreement

/-- A task runs unless a stored number raises or a credential has no key of a dict. -/
theorem run_eq (builtins : Builtins) (overflows : PyFloat → Bool) (env : String → Option String)
    (rows : String → Option Json) (own : String → Option Json) :
    (readSettings builtins overflows env rows).bind (processTask builtins env own) =
      if runs builtins overflows rows then some (usedOf builtins env own (settingsOf builtins env rows)) else none := by
  rw [readSettings, runs]
  cases numberKeys.any fun key => (rows key).any (raises builtins overflows) with
  | true => rfl
  | false =>
    show (if unhashable (rowItems rows "credentials") then none else some _) = if !unhashable _ then some _ else none
    cases unhashable (rowItems rows "credentials") <;> rfl

/-- What the page shows is what a task runs with, for exactly the sound contents. -/
theorem agrees_iff (builtins : Builtins) (overflows : PyFloat → Bool) (env : String → Option String)
    (rows : String → Option Json) (own : String → Option Json) :
    (∀ used, (readSettings builtins overflows env rows).bind (processTask builtins env own) = some used →
        Agrees builtins env rows used) ↔
      (runs builtins overflows rows = true → Sound builtins env rows own) := by
  rw [run_eq]
  cases runs builtins overflows rows with
  | false => exact iff_of_true nofun nofun
  | true =>
    rw [← agrees_used_iff]
    exact ⟨fun h _ => h _ rfl, by rintro h _ ⟨⟩; exact h rfl⟩

/-! ## A model in the environment -/

/-- What Python makes of the values below. -/
def python : Builtins := ⟨fun _ => "", fun _ => none, fun _ => none⟩

def fromEnv (name : String) : Option String := if name = "COMPACTION_MODEL" then some "from-env" else none

/-- No model is shown, and one is passed. -/
theorem the_compaction_model_is_not_shown :
    ∃ used, (readSettings python (fun _ => false) fromEnv fun _ => none).bind
        (processTask python fromEnv fun _ => none) = some used ∧
      (used.passed .compactionModel).map (text python) = some "from-env" ∧
      (shown python fromEnv (fun _ => none) "compaction_model").map (modelName python) = some "" ∧
      ¬ Agrees python fromEnv (fun _ => none) used := by
  refine ⟨_, rfl, rfl, rfl, fun h => ?_⟩
  obtain ⟨value, hshown, hstands⟩ := h.passed .compactionModel
  cases hshown
  have hname : "" = "from-env" := hstands
  exact absurd hname (by decide)

end Errand.Server.RunnerSettings

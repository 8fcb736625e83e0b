import Errand.Server.SavedPage

/-
  Errand.Server.SettingsSave — the settings page sent back unchanged: what GET /api/settings
  reports and what a task runs with, before and after (`update_settings` of errand/main.py,
  `_read_settings` and `_process_task` of errand/task_manager.py).

  Of a setting that is not passed to the runner the runner's default counts, here the
  registry's; the task's provider was configured manually and it has no profile. The task's
  own environment and the credentials are no settings of the page.

  Proved:
  - `save_unchanged_iff`: the save is accepted and changes nothing exactly for the tables and
    environments that are `Steady`; no update with a value that fails its check stores anything.
  - `a_number_for_a_token`: the mask of a token that is no text is stored in its place.
-/

namespace Errand.Server.SettingsSave

open Errand.Lib Errand.Server.SettingsRegistry Errand.Server.RunnerSettings
open Errand.Server.SettingsUpdate Errand.Server.SavedPage

section Definitions

variable (builtins : Builtins) (overflows : PyFloat → Bool) (services : Services)
variable (env : String → Option String) (rows : Rows)

/-! ## What a task runs with -/

/-- `value if isinstance(value, dict) else {}`. -/
def rowObject (key : String) : Json :=
  match rows key with
  | some (.obj fields) => .obj fields
  | _ => .obj []

/-- A model that is named by a text. -/
def namedModel (s : String) : Json := .obj [("provider_id", .null), ("model", .str s)]

/-- `settings["task_processing_model"]`; `noModel` is its default. -/
def taskModelOf : Option Json → Json
  | some (.obj fields) => .obj fields
  | some value => if value.truthy then namedModel (text builtins value) else noModel
  | none => noModel

/-- The provider and the model that a task uses; none is an error, "No model is configured". -/
def chosen (setting : Json) : Option (Option Json × Json) :=
  (ifTruthy (modelOf setting)).map fun model => (ifTruthy ((setting.get? "provider_id").getD .null), model)

/-- `settings["skills_git_repo"]`. -/
def skillsRepo : Option Json → Option Json
  | some (.obj fields) => if ((Json.lookup "url" fields).getD .null).truthy then some (.obj fields) else none
  | _ => none

/-- Every setting as a task reads it. -/
@[ext] structure Executed where
  mcpServers : Json
  taskModel : Option (Option Json × Json)
  systemPrompt : String
  mcpApiKey : String
  gitSshHosts : List Json
  skillsGitRepo : Option Json
  hindsightUrl : String
  hindsightBankId : String
  hindsightToken : String
  litellmMcpServers : List Json
  passed : Var → Json

/-- What a variable of the container stands for. -/
def passedOf (settings : Settings) (v : Var) : Json := (assigned builtins env settings v).getD (v.default builtins)

def executedOf (settings : Settings) : Executed where
  mcpServers := rowObject rows "mcp_servers"
  taskModel := chosen (taskModelOf builtins (rows "task_processing_model"))
  systemPrompt := settings.systemPrompt
  mcpApiKey := rowText builtins rows "mcp_api_key"
  gitSshHosts := if settings.sshPrivateKey = "" then [] else settings.gitSshHosts
  skillsGitRepo := skillsRepo (rows "skills_git_repo")
  hindsightUrl := (setIn env "HINDSIGHT_URL").getD settings.hindsightUrl
  hindsightBankId := (setIn env "HINDSIGHT_BANK_ID").getD (orText settings.hindsightBankId "errand-tasks")
  hindsightToken := (setIn env "HINDSIGHT_TOKEN").getD (rowText builtins rows "hindsight_token")
  litellmMcpServers := rowItems rows "litellm_mcp_servers"
  passed := passedOf builtins env settings

/-- What a task reads of the table; none if reading it raises. -/
def executed : Option Executed := (readSettings builtins overflows env rows).map (executedOf builtins env rows)

/-- The page is sent back as it was reported, and nothing has changed. -/
structure Unchanged : Prop where
  accepted : ∃ settings, (updateSettings builtins services env rows (page builtins env rows)).1 = .ok settings
  page : page builtins env (saved builtins services env rows) = page builtins env rows
  executed : executed builtins overflows env (saved builtins services env rows) = executed builtins overflows env rows

/-! ## When nothing changes -/

/-- A sign-on setting where the sign-on finds it after a save: its row if the environment gives
    the setting, else the text it is reported with. -/
def signOnValue (key name : String) : Json :=
  if (setIn env name).isSome then (rows key).getD .null else .str ((rows key).elim "" (text builtins))

/-- The sign-on comes from the environment, is not configured in the table, or its discovery
    answers. -/
def SignOnAnswers : Prop :=
  oidcFromEnv env = true ∨
    ((signOnValue builtins env rows "oidc_discovery_url" "OIDC_DISCOVERY_URL").truthy = true →
      (signOnValue builtins env rows "oidc_client_id" "OIDC_CLIENT_ID").truthy = true →
      (signOnValue builtins env rows "oidc_client_secret" "OIDC_CLIENT_SECRET").truthy = true →
      services.discovers
        (text builtins (signOnValue builtins env rows "oidc_discovery_url" "OIDC_DISCOVERY_URL")) = true)

/-- A model a text names is the one in the object it decodes to; any other value names none. -/
def TaskModelKept : Option Json → Prop
  | some (.obj _) | none => True
  | some (.str s) =>
    match builtins.loads s with
    | some (.obj fields) => chosen (.obj fields) = chosen (namedModel s)
    | _ => s = ""
  | some value => textOrEmpty builtins value = ""

/-- A token is a text, or reads as the mask of its text. -/
def TokenKept : Option Json → Prop
  | some (.str _) | none => True
  | some value => maskText builtins (text builtins value) = textOrEmpty builtins value

/-- The number settings, with the entry of each. -/
def numberSettings : List (String × Meta) :=
  [("task_processing_timeout", taskProcessingTimeout), ("compaction_timeout", compactionTimeout),
   ("compaction_max_tokens", SettingsRegistry.compactionMaxTokens),
   ("max_context_tokens", SettingsRegistry.maxContextTokens)]

/-- A number that cannot be read and that the environment gives: no save changes it. -/
def Blocked : Prop :=
  ∃ entry ∈ numberSettings, (envText env entry.2).isSome = true ∧ (rows entry.1).any (raises builtins overflows) = true

structure ExecutionKept : Prop where
  taskModel : TaskModelKept builtins (rows "task_processing_model")
  systemPrompt : TextKept builtins (rows "system_prompt") "" ""
  gitSshHosts : rowText builtins rows "ssh_private_key" ≠ "" → HostsKept builtins (rows "git_ssh_hosts")
  hindsightUrl : setIn env "HINDSIGHT_URL" = none → TextKept builtins (rows "hindsight_url") "" ""
  hindsightBankId : setIn env "HINDSIGHT_BANK_ID" = none → ∀ value, rows "hindsight_bank_id" = some value →
    textOrEmpty builtins value = "" → text builtins value = "" ∨ text builtins value = "errand-tasks"
  hindsightToken : setIn env "HINDSIGHT_TOKEN" = none → TokenKept builtins (rows "hindsight_token")
  litellmMcpServers : ∀ s items, rows "litellm_mcp_servers" = some (.str s) → builtins.loads s = some (.arr items) →
    items = []
  logLevel : TextKept builtins (rows "task_runner_log_level") ((setIn env "TASK_RUNNER_LOG_LEVEL").getD "INFO") "INFO"
  numbers : ∀ entry ∈ numberSettings, envText env entry.2 = none → ¬ rows entry.1 = some (.bool true)
  compactionModel : setIn env "COMPACTION_MODEL" = none → ∀ value, rows "compaction_model" = some value →
    ModelKept builtins value

/-- The tables and environments for which a save of the page changes nothing. -/
structure Steady : Prop where
  signOn : SignOnAnswers builtins services env rows
  executed : Blocked builtins overflows env rows ∨
    (∀ entry ∈ numberSettings, (rows entry.1).any (raises builtins overflows) = false) ∧ ExecutionKept builtins env rows

end Definitions

/-! ## The rows after a save -/

section Rows

variable {builtins : Builtins} {services : Services} {env : String → Option String} (table : Table services)
variable {key : String} {info : Meta}

theorem raw_row {rows : Rows} (henv : envText env info = none) : raw env rows key info = rows key := by
  rw [raw, henv]
  rfl

theorem saved_plain (h : settingsRegistry.lookup key = some info) (henv : envText env info = none)
    (hmask : info.maskAlways = false) (hmodel : modelSettingKeys.contains key = false) :
    saved builtins services env table.rows key =
      some (resolveSettingValue builtins env table.rows key info).1 := by
  rw [saved_value table (mem_registry h) henv hmask, reported, hmodel]
  rfl

theorem saved_text {d : String} (h : settingsRegistry.lookup key = some info) (henv : envText env info = none)
    (hmask : info.maskAlways = false) (hmodel : modelSettingKeys.contains key = false)
    (hdefault : info.default = .str d) :
    saved builtins services env table.rows key = some (.str ((table.rows key).elim d (text builtins))) := by
  rw [saved_plain table h henv hmask hmodel, resolve_text hdefault, raw_row henv]

theorem saved_number {d : Int} (h : settingsRegistry.lookup key = some info) (henv : envText env info = none)
    (hmask : info.maskAlways = false) (hmodel : modelSettingKeys.contains key = false)
    (hdefault : info.default = .int d) :
    saved builtins services env table.rows key =
      some (.int (((table.rows key).bind (toInt builtins)).getD d)) := by
  rw [saved_plain table h henv hmask hmodel, resolve_number hdefault, raw_row henv]

/-- A setting without a default keeps what is stored, null where nothing is. -/
theorem saved_null (h : settingsRegistry.lookup key = some info) (henv : envText env info = none)
    (hmask : info.maskAlways = false) (hmodel : modelSettingKeys.contains key = false)
    (hdefault : info.default = .null) :
    saved builtins services env table.rows key = some ((table.rows key).getD .null) := by
  rw [saved_plain table h henv hmask hmodel, resolve_raw, raw_row henv, hdefault]
  cases table.rows key <;> rfl

theorem saved_list {items : List Json} (h : settingsRegistry.lookup key = some info) (henv : envText env info = none)
    (hmask : info.maskAlways = false) (hmodel : modelSettingKeys.contains key = false)
    (hdefault : info.default = .arr items) :
    saved builtins services env table.rows key =
      some ((table.rows key).elim (.arr items) fun value =>
        (coerce builtins value (.arr items)).getD (.arr items)) := by
  rw [saved_plain table h henv hmask hmodel, resolve_raw, raw_row henv, hdefault]

theorem saved_model (h : settingsRegistry.lookup key = some info) (henv : envText env info = none)
    (hmask : info.maskAlways = false) (hmodel : modelSettingKeys.contains key = true)
    (hdefault : info.default = noModel) :
    saved builtins services env table.rows key =
      some (normalizeModelSettingValue ((table.rows key).elim noModel (objectOf builtins))) := by
  rw [saved_value table (mem_registry h) henv hmask, reported, hmodel, resolve_model key hdefault, raw_row henv]
  rfl

/-- Neither a secret nor a model resolves to anything else after a save. -/
theorem saved_resolved (h : settingsRegistry.lookup key = some info) (hsensitive : info.sensitive = false)
    (hmodel : modelSettingKeys.contains key = false) :
    (resolveSettingValue builtins env (saved builtins services env table.rows) key info).1 =
      (resolveSettingValue builtins env table.rows key info).1 := by
  rw [← resolveSetting_value hsensitive hmodel, ← resolveSetting_value hsensitive hmodel]
  exact saved_reported table (mem_registry h)

end Rows

/-! ## What a task reads after a save -/

section Texts

variable {builtins : Builtins} {services : Services} {env : String → Option String} (table : Table services)

/-- After a save a task reads the text that was reported. -/
theorem rowText_saved {key : String} (info : Meta) (d : String) (h : settingsRegistry.lookup key = some info)
    (henv : envText env info = none) (hmask : info.maskAlways = false)
    (hmodel : modelSettingKeys.contains key = false) (hdefault : info.default = .str d) :
    rowText builtins (saved builtins services env table.rows) key = (table.rows key).elim d (text builtins) := by
  rw [rowText, saved_text table h henv hmask hmodel hdefault]
  exact textOrEmpty_str _

theorem systemPrompt_kept :
    rowText builtins (saved builtins services env table.rows) "system_prompt" =
        rowText builtins table.rows "system_prompt" ↔
      TextKept builtins (table.rows "system_prompt") "" "" := by
  rw [rowText_saved table systemPrompt "" rfl rfl rfl rfl rfl, ← text_iff, orText_empty]
  exact Iff.rfl

/-- A setting with a variable is as the variable has it, whatever the row. -/
theorem env_kept {α : Type} (e : Option α) (a b : α) (p : Prop) (h : e = none → (a = b ↔ p)) :
    e.getD a = e.getD b ↔ (e = none → p) := by
  cases e with
  | some x => exact iff_of_true rfl nofun
  | none => exact (h rfl).trans ⟨fun hp _ => hp, fun hp => hp rfl⟩

theorem hindsightUrl_kept :
    (setIn env "HINDSIGHT_URL").getD (rowText builtins (saved builtins services env table.rows) "hindsight_url") =
        (setIn env "HINDSIGHT_URL").getD (rowText builtins table.rows "hindsight_url") ↔
      (setIn env "HINDSIGHT_URL" = none → TextKept builtins (table.rows "hindsight_url") "" "") := by
  refine env_kept _ _ _ _ fun henv => ?_
  rw [rowText_saved table hindsightUrl "" rfl henv rfl rfl rfl, ← text_iff, orText_empty]
  exact Iff.rfl

theorem hindsightBankId_kept :
    (setIn env "HINDSIGHT_BANK_ID").getD
          (orText (rowText builtins (saved builtins services env table.rows) "hindsight_bank_id") "errand-tasks") =
        (setIn env "HINDSIGHT_BANK_ID").getD (orText (rowText builtins table.rows "hindsight_bank_id") "errand-tasks") ↔
      (setIn env "HINDSIGHT_BANK_ID" = none → ∀ value, table.rows "hindsight_bank_id" = some value →
        textOrEmpty builtins value = "" → text builtins value = "" ∨ text builtins value = "errand-tasks") := by
  refine env_kept _ _ _ _ fun henv => ?_
  rw [rowText_saved table hindsightBankId "errand-tasks" rfl henv rfl rfl rfl, rowText]
  cases table.rows "hindsight_bank_id" with
  | none => exact iff_of_true rfl nofun
  | some value =>
    show orText (text builtins value) "errand-tasks" = orText (textOrEmpty builtins value) "errand-tasks" ↔ _
    by_cases hempty : textOrEmpty builtins value = ""
    · have hkept : (∀ other, some value = some other → textOrEmpty builtins other = "" →
          text builtins other = "" ∨ text builtins other = "errand-tasks") ↔
          text builtins value = "" ∨ text builtins value = "errand-tasks" :=
        ⟨fun h => h value rfl hempty, by rintro h _ ⟨⟩ -; exact h⟩
      rw [hkept, hempty]
      show orText (text builtins value) "errand-tasks" = "errand-tasks" ↔ _
      rw [orText]
      split
      · rename_i htext
        exact iff_of_true rfl (.inl htext)
      · rename_i htext
        exact ⟨.inr, fun h => h.resolve_left htext⟩
    · rw [textOrEmpty_eq hempty]
      refine iff_of_true rfl ?_
      rintro _ ⟨⟩ h
      exact absurd h hempty

theorem hindsightToken_kept :
    (setIn env "HINDSIGHT_TOKEN").getD (rowText builtins (saved builtins services env table.rows) "hindsight_token") =
        (setIn env "HINDSIGHT_TOKEN").getD (rowText builtins table.rows "hindsight_token") ↔
      (setIn env "HINDSIGHT_TOKEN" = none → TokenKept builtins (table.rows "hindsight_token")) := by
  refine env_kept _ _ _ _ fun henv => ?_
  rw [rowText, rowText, saved_token table henv]
  cases table.rows "hindsight_token" with
  | none => exact iff_of_true rfl trivial
  | some value =>
    have hmask : ∀ s, textOrEmpty builtins (.str s) = textOrEmpty builtins value ↔ s = textOrEmpty builtins value := by
      intro s
      rw [textOrEmpty_str]
    cases value with
    | str s => exact iff_of_true rfl trivial
    | _ => exact hmask _

end Texts

section Hosts

variable {builtins : Builtins} {services : Services} {env : String → Option String} (table : Table services)

theorem gitSshHosts_kept :
    (if rowText builtins (saved builtins services env table.rows) "ssh_private_key" = "" then []
        else rowItems (saved builtins services env table.rows) "git_ssh_hosts") =
      (if rowText builtins table.rows "ssh_private_key" = "" then [] else rowItems table.rows "git_ssh_hosts") ↔
      (rowText builtins table.rows "ssh_private_key" ≠ "" → HostsKept builtins (table.rows "git_ssh_hosts")) := by
  have hkey : rowText builtins (saved builtins services env table.rows) "ssh_private_key" =
      rowText builtins table.rows "ssh_private_key" := by
    rw [rowText, rowText, saved_other table (by decide)]
  have hsaved : saved builtins services env table.rows "git_ssh_hosts" = _ :=
    saved_list table rfl rfl rfl rfl rfl
  rw [hkey]
  by_cases hempty : rowText builtins table.rows "ssh_private_key" = ""
  · rw [if_pos hempty, if_pos hempty]
    exact iff_of_true rfl fun h => absurd hempty h
  · rw [if_neg hempty, if_neg hempty]
    refine Iff.trans ?_ ⟨fun h _ => h, fun h => h hempty⟩
    rw [rowItems, rowItems, hsaved]
    cases table.rows "git_ssh_hosts" with
    | none => exact iff_of_false (by rintro ⟨⟩) id
    | some value =>
      cases value with
      | arr items => exact iff_of_true rfl trivial
      | str s =>
        show rowItems (Function.const _ (some ((Option.filter _ (builtins.loads s)).getD gitSshHosts.default)))
          "git_ssh_hosts" = [] ↔ builtins.loads s = some (.arr [])
        cases builtins.loads s with
        | none => exact iff_of_false (by rintro ⟨⟩) (by rintro ⟨⟩)
        | some value =>
          cases value with
          | arr items => exact ⟨fun h => congrArg (some ∘ Json.arr) h, fun h => Json.arr.inj (Option.some.inj h)⟩
          | _ => exact iff_of_false (by rintro ⟨⟩) (by rintro ⟨⟩)
      | _ => exact iff_of_false (by rintro ⟨⟩) id

theorem litellm_kept :
    rowItems (saved builtins services env table.rows) "litellm_mcp_servers" =
        rowItems table.rows "litellm_mcp_servers" ↔
      ∀ s items, table.rows "litellm_mcp_servers" = some (.str s) → builtins.loads s = some (.arr items) →
        items = [] := by
  have hsaved : saved builtins services env table.rows "litellm_mcp_servers" = _ :=
    saved_list table rfl rfl rfl rfl rfl
  rw [rowItems, rowItems, hsaved]
  cases table.rows "litellm_mcp_servers" with
  | none => exact iff_of_true rfl (by rintro _ _ ⟨⟩)
  | some value =>
    cases value with
    | str s =>
      have hkept : (∀ t items, some (Json.str s) = some (.str t) → builtins.loads t = some (.arr items) → items = []) ↔
          ∀ items, builtins.loads s = some (.arr items) → items = [] :=
        ⟨fun h items => h s items rfl, by rintro h _ items ⟨⟩; exact h items⟩
      rw [hkept]
      show rowItems (Function.const _ (some ((Option.filter _ (builtins.loads s)).getD (.arr []))))
        "litellm_mcp_servers" = [] ↔ _
      cases builtins.loads s with
      | none => exact iff_of_true rfl (by rintro _ ⟨⟩)
      | some value =>
        cases value with
        | arr items => exact ⟨by rintro h _ ⟨⟩; exact h, fun h => h items rfl⟩
        | _ => exact iff_of_true rfl (by rintro _ ⟨⟩)
    | _ => exact iff_of_true rfl (by rintro _ _ ⟨⟩)

end Hosts

section Passed

variable {builtins : Builtins} {services : Services} {env : String → Option String} (table : Table services)

/-- A number is read as it is reported, unless a bool counts as one. -/
theorem rowNumber_kept {key : String} {d : Int} (info : Meta) (hd : 1 < d)
    (h : settingsRegistry.lookup key = some info) (henv : envText env info = none) (hmask : info.maskAlways = false)
    (hmodel : modelSettingKeys.contains key = false) (hdefault : info.default = .int d) :
    (rowNumber builtins (saved builtins services env table.rows) key).getD d =
        (rowNumber builtins table.rows key).getD d ↔
      ¬ table.rows key = some (.bool true) := by
  have hpos : (some d).filter (fun n => decide (0 < n)) = some d := by
    rw [Option.filter_some, if_pos (decide_eq_true (by omega))]
  rw [rowNumber, rowNumber, saved_number table h henv hmask hmodel hdefault]
  cases table.rows key with
  | none =>
    show ((some d).filter (0 < ·)).getD d = d ↔ _
    rw [hpos]
    exact iff_of_true rfl (by rintro ⟨⟩)
  | some value =>
    show ((some ((toInt builtins value).getD d)).filter (0 < ·)).getD d =
      ((toNumber builtins value).filter (0 < ·)).getD d ↔ _
    by_cases hbool : ∃ b, value = .bool b
    · obtain ⟨b, rfl⟩ := hbool
      show ((some d).filter (0 < ·)).getD d = _ ↔ _
      rw [hpos]
      cases b with
      | true =>
        refine iff_of_false (fun heq => ?_) fun hno => hno rfl
        have heq : d = 1 := heq
        omega
      | false => exact iff_of_true rfl (by rintro ⟨⟩)
    · rw [toNumber_eq fun b heq => hbool ⟨b, heq⟩]
      have hother : ¬ some value = some (.bool true) := fun heq => hbool ⟨true, Option.some.inj heq⟩
      cases toInt builtins value with
      | none =>
        show ((some d).filter (0 < ·)).getD d = d ↔ _
        rw [hpos]
        exact iff_of_true rfl hother
      | some n => exact iff_of_true rfl hother

/-- A number that the runner is passed from the environment or the row, or its default. -/
theorem numberVar_kept {key name : String} {d : Int} (info : Meta) (hd : 1 < d) (hname : info.envVar = some name)
    (h : settingsRegistry.lookup key = some info) (hmask : info.maskAlways = false)
    (hmodel : modelSettingKeys.contains key = false) (hdefault : info.default = .int d) :
    (envOr env name ((rowNumber builtins (saved builtins services env table.rows) key).map .int)).getD (.int d) =
        (envOr env name ((rowNumber builtins table.rows key).map .int)).getD (.int d) ↔
      (envText env info = none → ¬ table.rows key = some (.bool true)) := by
  have henv : envText env info = setIn env name := by
    rw [envText, hname]
    rfl
  rw [henv, envOr_eq, envOr_eq]
  have hnumber : ∀ o : Option Int, (o.map Json.int).getD (.int d) = .int (o.getD d) := by
    rintro (_ | n) <;> rfl
  cases hset : setIn env name with
  | some s => exact iff_of_true rfl nofun
  | none =>
    show ((rowNumber builtins _ key).map Json.int).getD (.int d) =
      ((rowNumber builtins _ key).map Json.int).getD (.int d) ↔ _
    have hkept : (rowNumber builtins (saved builtins services env table.rows) key).getD d = _ ↔ _ :=
      rowNumber_kept table info hd h (henv.trans hset) hmask hmodel hdefault
    rw [hnumber, hnumber]
    exact (Iff.intro Json.int.inj (congrArg Json.int)).trans
      (hkept.trans ⟨fun hno _ => hno, fun hno => hno rfl⟩)

/-- The level that is passed, or the runner's own. -/
theorem level_eq (rows : Rows) :
    passedOf builtins env (settingsOf builtins env rows) .logLevel =
      .str (orText (rowText builtins rows "task_runner_log_level")
        ((setIn env "TASK_RUNNER_LOG_LEVEL").getD "INFO")) := by
  have hlevel : ∀ level : String,
      (if level = "" then none else some (Json.str level)).getD (.str "INFO") = .str (orText level "INFO") := by
    intro level
    rw [orText]
    split <;> rfl
  rw [← getD_setIn, ← orText_assoc]
  exact hlevel _

/-- Every stored level passes its check, so that only an unset one can change. -/
theorem logLevel_kept :
    passedOf builtins env (settingsOf builtins env (saved builtins services env table.rows)) .logLevel =
        passedOf builtins env (settingsOf builtins env table.rows) .logLevel ↔
      TextKept builtins (table.rows "task_runner_log_level") ((setIn env "TASK_RUNNER_LOG_LEVEL").getD "INFO")
        "INFO" := by
  have htext : ∀ t : String, t ≠ "" → ∀ fallback, orText t fallback = t := fun t ht _ => if_neg ht
  rw [level_eq, level_eq, rowText_saved table taskRunnerLogLevel "INFO" rfl rfl rfl rfl rfl, ← text_iff]
  rw [show ((table.rows "task_runner_log_level").elim "" (textOrEmpty builtins)) =
    rowText builtins table.rows "task_runner_log_level" from rfl]
  have hne : (table.rows "task_runner_log_level").elim "INFO" (text builtins) ≠ "" := by
    cases hrow : table.rows "task_runner_log_level" with
    | none => exact fun heq => absurd heq (by decide : "INFO" ≠ "")
    | some value =>
      have hvalid := table.valid _ _ hrow
      cases value with
      | str s =>
        rintro rfl
        cases hvalid
      | _ => cases hvalid
  rw [htext _ hne]
  exact ⟨Json.str.inj, congrArg Json.str⟩

theorem maxTurns_kept :
    passedOf builtins env (settingsOf builtins env (saved builtins services env table.rows)) .maxTurns =
      passedOf builtins env (settingsOf builtins env table.rows) .maxTurns := by
  show (ifTruthy (resolveSettingValue builtins env _ "max_turns" SettingsRegistry.maxTurns).1).getD _ =
    (ifTruthy (resolveSettingValue builtins env _ "max_turns" SettingsRegistry.maxTurns).1).getD _
  rw [saved_resolved table rfl rfl rfl]

theorem reasoningEffort_kept :
    passedOf builtins env (settingsOf builtins env (saved builtins services env table.rows)) .reasoningEffort =
      passedOf builtins env (settingsOf builtins env table.rows) .reasoningEffort := by
  show (ifTruthy (resolveSettingValue builtins env _ "reasoning_effort" SettingsRegistry.reasoningEffort).1).getD _ =
    (ifTruthy (resolveSettingValue builtins env _ "reasoning_effort" SettingsRegistry.reasoningEffort).1).getD _
  rw [saved_resolved table rfl rfl rfl]

end Passed

section Models

variable {builtins : Builtins} {services : Services} {env : String → Option String} (table : Table services)

theorem passed_model (setting : Json) :
    (compactionModelOf builtins setting).getD (.str "") = .str (textOrEmpty builtins (selected setting)) := by
  rw [compactionModelOf, textOrEmpty]
  split <;> rfl

theorem selected_normalize {value : Json} (h : ∃ fields, value = .obj fields) :
    selected (normalizeModelSettingValue value) = modelOf value := by
  obtain ⟨fields, rfl⟩ := h
  obtain ⟨other, hother⟩ := normalize_obj fields
  have hmodel := modelOf_normalize (.obj fields)
  rw [hother] at hmodel ⊢
  exact hmodel

/-- The object that a model setting's row stands for. -/
theorem stored_obj (row : Option Json) : ∃ fields, row.elim noModel (objectOf builtins) = .obj fields := by
  cases row with
  | none => exact ⟨_, rfl⟩
  | some value => exact objectOf_obj value

theorem compactionModel_kept :
    passedOf builtins env (settingsOf builtins env (saved builtins services env table.rows)) .compactionModel =
        passedOf builtins env (settingsOf builtins env table.rows) .compactionModel ↔
      (setIn env "COMPACTION_MODEL" = none → ∀ value, table.rows "compaction_model" = some value →
        ModelKept builtins value) := by
  show (envOr env "COMPACTION_MODEL" (compactionModelOf builtins ((saved builtins services env table.rows
      "compaction_model").getD .null))).getD (.str "") =
    (envOr env "COMPACTION_MODEL" (compactionModelOf builtins ((table.rows "compaction_model").getD .null))).getD
      (.str "") ↔ _
  rw [envOr_eq, envOr_eq]
  cases henv : setIn env "COMPACTION_MODEL" with
  | some s => exact iff_of_true rfl nofun
  | none =>
    have hiff : modelName builtins ((table.rows "compaction_model").elim noModel (objectOf builtins)) = _ ↔ _ :=
      model_iff none (table.rows "compaction_model")
    have hinfo : envText env SettingsRegistry.compactionModel = none := henv
    rw [saved_model table rfl hinfo rfl rfl rfl]
    show (compactionModelOf builtins (normalizeModelSettingValue _)).getD (.str "") =
      (compactionModelOf builtins _).getD (.str "") ↔ _
    rw [passed_model, passed_model, selected_normalize (stored_obj _), ← text_compactionModelOf]
    exact (Iff.intro Json.str.inj (congrArg Json.str)).trans (hiff.trans ⟨fun h _ => h, fun h => h rfl⟩)

theorem chosen_noModel : chosen noModel = none := rfl

theorem chosen_named (s : String) : chosen (namedModel s) = if s = "" then none else some (none, .str s) := by
  by_cases hs : s = ""
  · subst hs
    rfl
  · have htrue : (Json.str s).truthy = true := by
      simpa [Json.truthy] using hs
    have hmodel : modelOf (namedModel s) = .str s := by
      show (if (Json.str s).truthy then Json.str s else _) = _
      rw [if_pos htrue]
    have hgiven : ifTruthy (.str s) = some (.str s) := if_pos htrue
    rw [chosen, hmodel, hgiven, if_neg hs]
    rfl

/-- The provider is not among the names that are kept in sync. -/
theorem chosen_normalize (fields : List (String × Json)) :
    chosen (normalizeModelSettingValue (.obj fields)) = chosen (.obj fields) := by
  have hprovider : (normalizeModelSettingValue (.obj fields)).get? "provider_id" =
      (Json.obj fields).get? "provider_id" := by
    rcases normalize_cases fields with h | h
    · rw [h]
    · rw [h, Json.get?_set_other _ (by decide), Json.get?_set_other _ (by decide)]
  rw [chosen, chosen, modelOf_normalize, hprovider]

theorem taskModelOf_obj {value : Json} (h : ∃ fields, value = .obj fields) :
    chosen (taskModelOf builtins (some (normalizeModelSettingValue value))) = chosen value := by
  obtain ⟨fields, rfl⟩ := h
  obtain ⟨other, hother⟩ := normalize_obj fields
  rw [← chosen_normalize, hother]
  rfl

/-- A value that is no object names a model by its text. -/
theorem taskModelOf_text {value : Json} (h : ∀ fields, value ≠ .obj fields) :
    chosen (taskModelOf builtins (some value)) = chosen (namedModel (textOrEmpty builtins value)) := by
  have hread : taskModelOf builtins (some value) =
      if value.truthy then namedModel (text builtins value) else noModel := by
    cases value with
    | obj fields => exact absurd rfl (h fields)
    | _ => rfl
  rw [hread, textOrEmpty]
  split
  · rfl
  · rfl

theorem none_named_iff (s : String) : none = chosen (namedModel s) ↔ s = "" := by
  rw [chosen_named]
  split
  · rename_i hs
    exact iff_of_true rfl hs
  · rename_i hs
    exact iff_of_false nofun hs

theorem taskModel_kept :
    chosen (taskModelOf builtins (saved builtins services env table.rows "task_processing_model")) =
        chosen (taskModelOf builtins (table.rows "task_processing_model")) ↔
      TaskModelKept builtins (table.rows "task_processing_model") := by
  rw [saved_model table rfl rfl rfl rfl rfl, taskModelOf_obj (stored_obj _)]
  cases table.rows "task_processing_model" with
  | none => exact iff_of_true rfl trivial
  | some value =>
    show chosen (objectOf builtins value) = _ ↔ _
    cases value with
    | obj fields => exact iff_of_true rfl trivial
    | str s =>
      rw [taskModelOf_text (by rintro _ ⟨⟩), textOrEmpty_str]
      show chosen (objectOf builtins (.str s)) = chosen (namedModel s) ↔
        (match builtins.loads s with
          | some (.obj fields) => chosen (.obj fields) = chosen (namedModel s)
          | _ => s = "")
      rw [objectOf]
      cases builtins.loads s with
      | none => exact none_named_iff s
      | some value =>
        cases value with
        | obj fields => exact Iff.rfl
        | _ => exact none_named_iff s
    | _ =>
      rw [taskModelOf_text (by rintro _ ⟨⟩)]
      exact none_named_iff _

end Models

/-! ## All of it -/

section Everything

variable {builtins : Builtins} {services : Services} {env : String → Option String} (table : Table services)

theorem mcpServers_kept :
    rowObject (saved builtins services env table.rows) "mcp_servers" = rowObject table.rows "mcp_servers" := by
  rw [rowObject, rowObject, saved_null table rfl rfl rfl rfl rfl]
  cases table.rows "mcp_servers" with
  | none => rfl
  | some value => cases value <;> rfl

theorem mcpApiKey_kept :
    rowText builtins (saved builtins services env table.rows) "mcp_api_key" =
      rowText builtins table.rows "mcp_api_key" := by
  rw [rowText, rowText, saved_null table rfl rfl rfl rfl rfl]
  cases table.rows "mcp_api_key" <;> rfl

theorem skillsGitRepo_kept :
    skillsRepo (saved builtins services env table.rows "skills_git_repo") =
      skillsRepo (table.rows "skills_git_repo") := by
  rw [saved_null table rfl rfl rfl rfl rfl]
  cases table.rows "skills_git_repo" <;> rfl

theorem timeout_kept :
    passedOf builtins env (settingsOf builtins env (saved builtins services env table.rows)) .llmRequestTimeout =
        passedOf builtins env (settingsOf builtins env table.rows) .llmRequestTimeout ↔
      (envText env taskProcessingTimeout = none → ¬ table.rows "task_processing_timeout" = some (.bool true)) :=
  (Iff.intro Json.int.inj (congrArg Json.int)).trans
    ((rowNumber_kept table taskProcessingTimeout (by decide) rfl rfl rfl rfl rfl).trans ⟨fun h _ => h, fun h => h rfl⟩)

theorem compactionTimeout_kept :
    passedOf builtins env (settingsOf builtins env (saved builtins services env table.rows))
          .compactionTimeoutSeconds =
        passedOf builtins env (settingsOf builtins env table.rows) .compactionTimeoutSeconds ↔
      (envText env compactionTimeout = none → ¬ table.rows "compaction_timeout" = some (.bool true)) :=
  numberVar_kept table compactionTimeout (by decide) rfl rfl rfl rfl rfl

theorem compactionMaxTokens_kept :
    passedOf builtins env (settingsOf builtins env (saved builtins services env table.rows)) .compactionMaxTokens =
        passedOf builtins env (settingsOf builtins env table.rows) .compactionMaxTokens ↔
      (envText env SettingsRegistry.compactionMaxTokens = none →
        ¬ table.rows "compaction_max_tokens" = some (.bool true)) :=
  numberVar_kept table SettingsRegistry.compactionMaxTokens (by decide) rfl rfl rfl rfl rfl

theorem maxContextTokens_kept :
    passedOf builtins env (settingsOf builtins env (saved builtins services env table.rows)) .maxContextTokens =
        passedOf builtins env (settingsOf builtins env table.rows) .maxContextTokens ↔
      (envText env SettingsRegistry.maxContextTokens = none → ¬ table.rows "max_context_tokens" = some (.bool true)) :=
  numberVar_kept table SettingsRegistry.maxContextTokens (by decide) rfl rfl rfl rfl rfl

/-- A task reads what it read before exactly if the values are kept. -/
theorem executedOf_kept :
    executedOf builtins env (saved builtins services env table.rows)
          (settingsOf builtins env (saved builtins services env table.rows)) =
        executedOf builtins env table.rows (settingsOf builtins env table.rows) ↔
      ExecutionKept builtins env table.rows := by
  rw [Executed.ext_iff]
  constructor
  · rintro ⟨-, htask, hprompt, -, hhosts, -, hurl, hbank, htoken, hlitellm, hpassed⟩
    have hvar : ∀ v, passedOf builtins env (settingsOf builtins env (saved builtins services env table.rows)) v =
        passedOf builtins env (settingsOf builtins env table.rows) v := congrFun hpassed
    exact
      { taskModel := (taskModel_kept table).mp htask
        systemPrompt := (systemPrompt_kept table).mp hprompt
        gitSshHosts := (gitSshHosts_kept table).mp hhosts
        hindsightUrl := (hindsightUrl_kept table).mp hurl
        hindsightBankId := (hindsightBankId_kept table).mp hbank
        hindsightToken := (hindsightToken_kept table).mp htoken
        litellmMcpServers := (litellm_kept table).mp hlitellm
        logLevel := (logLevel_kept table).mp (hvar .logLevel)
        numbers := List.forall_mem_cons.mpr ⟨(timeout_kept table).mp (hvar .llmRequestTimeout),
          List.forall_mem_cons.mpr ⟨(compactionTimeout_kept table).mp (hvar .compactionTimeoutSeconds),
            List.forall_mem_cons.mpr ⟨(compactionMaxTokens_kept table).mp (hvar .compactionMaxTokens),
              List.forall_mem_singleton.mpr ((maxContextTokens_kept table).mp (hvar .maxContextTokens))⟩⟩⟩
        compactionModel := (compactionModel_kept table).mp (hvar .compactionModel) }
  · intro h
    have hnumber : ∀ key info, (key, info) ∈ numberSettings → envText env info = none →
        ¬ table.rows key = some (.bool true) := fun key info hmem => h.numbers (key, info) hmem
    have hvar : ∀ v, passedOf builtins env (settingsOf builtins env (saved builtins services env table.rows)) v =
        passedOf builtins env (settingsOf builtins env table.rows) v := by
      intro v
      cases v with
      | logLevel => exact (logLevel_kept table).mpr h.logLevel
      | maxTurns => exact maxTurns_kept table
      | reasoningEffort => exact reasoningEffort_kept table
      | llmRequestTimeout => exact (timeout_kept table).mpr (hnumber _ _ (by simp [numberSettings]))
      | compactionModel => exact (compactionModel_kept table).mpr h.compactionModel
      | compactionTimeoutSeconds => exact (compactionTimeout_kept table).mpr (hnumber _ _ (by simp [numberSettings]))
      | compactionMaxTokens => exact (compactionMaxTokens_kept table).mpr (hnumber _ _ (by simp [numberSettings]))
      | maxContextTokens => exact (maxContextTokens_kept table).mpr (hnumber _ _ (by simp [numberSettings]))
    exact ⟨mcpServers_kept table, (taskModel_kept table).mpr h.taskModel, (systemPrompt_kept table).mpr h.systemPrompt,
      mcpApiKey_kept table, (gitSshHosts_kept table).mpr h.gitSshHosts, skillsGitRepo_kept table,
      (hindsightUrl_kept table).mpr h.hindsightUrl, (hindsightBankId_kept table).mpr h.hindsightBankId,
      (hindsightToken_kept table).mpr h.hindsightToken, (litellm_kept table).mpr h.litellmMcpServers, funext hvar⟩

variable {overflows : PyFloat → Bool}

theorem numberKeys_eq : numberKeys = numberSettings.map Prod.fst := rfl

theorem readSettings_none (rows : Rows) :
    readSettings builtins overflows env rows = none ↔
      ∃ entry ∈ numberSettings, (rows entry.1).any (raises builtins overflows) = true := by
  rw [readSettings, numberKeys_eq, List.any_map]
  have hany : (numberSettings.any fun entry => (rows entry.1).any (raises builtins overflows)) = true ↔
      ∃ entry ∈ numberSettings, (rows entry.1).any (raises builtins overflows) = true := List.any_eq_true
  rw [← hany]
  show (if (numberSettings.any fun entry => (rows entry.1).any (raises builtins overflows)) = true then _
    else _) = none ↔ _
  split
  · rename_i h
    exact iff_of_true rfl h
  · rename_i h
    exact iff_of_false (by rintro ⟨⟩) h

theorem readSettings_some {rows : Rows}
    (h : ∀ entry ∈ numberSettings, (rows entry.1).any (raises builtins overflows) = false) :
    readSettings builtins overflows env rows = some (settingsOf builtins env rows) := by
  have hno : ¬ (numberKeys.any fun key => (rows key).any (raises builtins overflows)) = true := by
    rw [numberKeys_eq, List.any_map, Bool.not_eq_true, List.any_eq_false]
    intro entry hentry
    exact Bool.eq_false_iff.mp (h entry hentry)
  rw [readSettings, if_neg hno]

/-- After a save only a number that the environment gives cannot be read. -/
theorem saved_raises {entry : String × Meta} (hentry : entry ∈ numberSettings) :
    (saved builtins services env table.rows entry.1).any (raises builtins overflows) =
      ((envText env entry.2).isSome && (table.rows entry.1).any (raises builtins overflows)) := by
  have hfacts : settingsRegistry.lookup entry.1 = some entry.2 ∧ entry.2.maskAlways = false ∧
      modelSettingKeys.contains entry.1 = false ∧ ∃ d, entry.2.default = .int d := by
    have hmem : entry ∈ numberSettings := hentry
    simp only [numberSettings, List.mem_cons, List.not_mem_nil, or_false] at hmem
    rcases hmem with rfl | rfl | rfl | rfl
    all_goals exact ⟨rfl, rfl, rfl, _, rfl⟩
  obtain ⟨hlookup, hmask, hmodel, d, hdefault⟩ := hfacts
  cases henv : envText env entry.2 with
  | some s => rw [saved_env table (mem_registry hlookup) henv, Option.isSome_some, Bool.true_and]
  | none =>
    rw [saved_number table hlookup henv hmask hmodel hdefault]
    rfl

/-- A task reads what it read before, or nothing before and after. -/
theorem executed_kept :
    executed builtins overflows env (saved builtins services env table.rows) =
        executed builtins overflows env table.rows ↔
      Blocked builtins overflows env table.rows ∨
        (∀ entry ∈ numberSettings, (table.rows entry.1).any (raises builtins overflows) = false) ∧
          ExecutionKept builtins env table.rows := by
  have hafter : readSettings builtins overflows env (saved builtins services env table.rows) = none ↔
      Blocked builtins overflows env table.rows := by
    rw [readSettings_none, Blocked]
    refine exists_congr fun entry => and_congr_right fun hentry => ?_
    rw [saved_raises table hentry, Bool.and_eq_true]
  by_cases hblocked : Blocked builtins overflows env table.rows
  · have hbefore : readSettings builtins overflows env table.rows = none := by
      obtain ⟨entry, hentry, -, hraises⟩ := hblocked
      exact (readSettings_none table.rows).mpr ⟨entry, hentry, hraises⟩
    rw [executed, executed, hafter.mpr hblocked, hbefore]
    exact iff_of_true rfl (.inl hblocked)
  · have hread : readSettings builtins overflows env (saved builtins services env table.rows) = some _ :=
      readSettings_some fun entry hentry => by
        rw [saved_raises table hentry, Bool.eq_false_iff]
        intro hboth
        exact hblocked ⟨entry, hentry, Bool.and_eq_true_iff.mp hboth⟩
    rw [executed, executed, hread, or_iff_right hblocked]
    by_cases hnone : readSettings builtins overflows env table.rows = none
    · obtain ⟨entry, hentry, hraises⟩ := (readSettings_none table.rows).mp hnone
      rw [hnone]
      refine iff_of_false nofun fun h => ?_
      rw [h.1 entry hentry] at hraises
      cases hraises
    · have hplain : ∀ entry ∈ numberSettings, (table.rows entry.1).any (raises builtins overflows) = false := by
        intro entry hentry
        rw [Bool.eq_false_iff]
        exact fun hraises => hnone ((readSettings_none table.rows).mpr ⟨entry, hentry, hraises⟩)
      rw [readSettings_some hplain, and_iff_right hplain, ← executedOf_kept table]
      exact Option.some_inj

/-! ## The sign-on -/

theorem signOn_row (key name : String) (info : Meta) (h : settingsRegistry.lookup key = some info)
    (hname : info.envVar = some name) (hmask : info.maskAlways = false) (hmodel : modelSettingKeys.contains key = false)
    (hdefault : info.default = .str "") :
    (saved builtins services env table.rows key).any Json.truthy =
        (signOnValue builtins env table.rows key name).truthy ∧
      ((signOnValue builtins env table.rows key name).truthy = true →
        saved builtins services env table.rows key = some (signOnValue builtins env table.rows key name)) := by
  have henv : envText env info = setIn env name := by
    rw [envText, hname]
    rfl
  rw [signOnValue]
  cases hset : setIn env name with
  | some s =>
    rw [saved_env table (mem_registry h) (henv.trans hset), Option.isSome_some, if_pos rfl]
    cases table.rows key with
    | none => exact ⟨rfl, nofun⟩
    | some value => exact ⟨rfl, fun _ => rfl⟩
  | none =>
    rw [saved_text table h (henv.trans hset) hmask hmodel hdefault]
    exact ⟨rfl, fun _ => rfl⟩

/-- The sign-on is set up after the save exactly if its discovery answers where it is asked. -/
theorem hotReload_saved :
    oidcHotReload builtins services env (saved builtins services env table.rows) = true ↔
      SignOnAnswers builtins services env table.rows := by
  obtain ⟨hurl, hrow⟩ : (saved builtins services env table.rows "oidc_discovery_url").any Json.truthy = _ ∧ _ :=
    signOn_row table "oidc_discovery_url" "OIDC_DISCOVERY_URL" _ rfl rfl rfl rfl rfl
  obtain ⟨hid, -⟩ : (saved builtins services env table.rows "oidc_client_id").any Json.truthy = _ ∧ _ :=
    signOn_row table "oidc_client_id" "OIDC_CLIENT_ID" _ rfl rfl rfl rfl rfl
  obtain ⟨hsecret, -⟩ : (saved builtins services env table.rows "oidc_client_secret").any Json.truthy = _ ∧ _ :=
    signOn_row table "oidc_client_secret" "OIDC_CLIENT_SECRET" _ rfl rfl rfl rfl rfl
  rw [oidcHotReload, SignOnAnswers, Bool.or_eq_true, oidcConfig]
  refine or_congr_right ?_
  show (if (saved builtins services env table.rows "oidc_discovery_url").any Json.truthy &&
      (saved builtins services env table.rows "oidc_client_id").any Json.truthy &&
      (saved builtins services env table.rows "oidc_client_secret").any Json.truthy then
    (saved builtins services env table.rows "oidc_discovery_url").map (text builtins) else none).all
      services.discovers = true ↔ _
  rw [hurl, hid, hsecret]
  split
  · rename_i hall
    simp only [Bool.and_eq_true] at hall
    obtain ⟨⟨hu, hi⟩, hs⟩ := hall
    rw [hrow hu]
    exact ⟨fun h _ _ _ => h, fun h => h hu hi hs⟩
  · rename_i hall
    refine iff_of_true rfl fun hu hi hs => absurd ?_ hall
    rw [hu, hi, hs]
    rfl

theorem page_signOn (rows : Rows) :
    (oidcKeys.any fun key => ((page builtins env rows).lookup key).isSome) = true := by
  rw [page_eq]
  rfl

theorem accepted_iff :
    (∃ settings, (updateSettings builtins services env table.rows (page builtins env table.rows)).1 = .ok settings) ↔
      SignOnAnswers builtins services env table.rows := by
  rw [← hotReload_saved, saved_eq, updateSettings_accepted builtins (page_accepted table), page_signOn, Bool.true_and]
  split
  · rename_i hfails
    have hfails := Bool.not_eq_true' _ |>.mp hfails
    refine iff_of_false (by rintro ⟨_, h⟩; cases h) ?_
    rw [hfails]
    exact Bool.false_ne_true
  · rename_i hanswers
    exact iff_of_true ⟨_, rfl⟩ (by simpa using hanswers)

end Everything

/-- A save of the page changes nothing exactly where everything is steady, and an update with
    a value that fails its check stores nothing. -/
theorem save_unchanged_iff (builtins : Builtins) (overflows : PyFloat → Bool) (services : Services)
    (env : String → Option String) (table : Table services) :
    (Unchanged builtins overflows services env table.rows ↔ Steady builtins overflows services env table.rows) ∧
      ∀ (rows : Rows) (body : List (String × Json)) (item : String × Json), item ∈ body → Fails services env item →
        ∃ e, updateSettings builtins services env rows body = (.error e, rows) := by
  refine ⟨⟨fun h => ?_, fun h => ?_⟩, fun rows body item hmem hfails => refused_update builtins hmem hfails rows⟩
  · exact
      { signOn := (accepted_iff table).mp h.accepted
        executed := (executed_kept table).mp h.executed }
  · exact
      { accepted := (accepted_iff table).mpr h.signOn
        page := page_saved table
        executed := (executed_kept table).mpr h.executed }

/-! ## A token that is a number -/

/-- What Python makes of the value below. -/
def python : Builtins := ⟨fun value => match value with
  | .int n => toString n
  | _ => "", fun _ => none, fun _ => none⟩

def noServices : Services := ⟨fun _ => .known, id, fun _ => false, rfl⟩

def numberToken : Rows := fun key => if key = "hindsight_token" then some (.int 12345678) else none

def aTable : Table noServices where
  rows := numberToken
  valid := by
    intro key value h
    rw [numberToken] at h
    split at h
    · rename_i hkey
      subst hkey
      rfl
    · cases h

/-- A task is given the token "1234****" after a save of the page. -/
theorem a_number_for_a_token :
    (∃ settings, (updateSettings python noServices (fun _ => none) aTable.rows
      (page python (fun _ => none) aTable.rows)).1 = .ok settings) ∧
    (executed python (fun _ => false) (fun _ => none) aTable.rows).map Executed.hindsightToken = some "12345678" ∧
    (executed python (fun _ => false) (fun _ => none) (saved python noServices (fun _ => none) aTable.rows)).map
      Executed.hindsightToken = some "1234****" ∧
    ¬ Unchanged python (fun _ => false) noServices (fun _ => none) aTable.rows := by
  have hbefore : (executed python (fun _ => false) (fun _ => none) aTable.rows).map Executed.hindsightToken =
      some "12345678" := by decide
  have hafter : (executed python (fun _ => false) (fun _ => none)
      (saved python noServices (fun _ => none) aTable.rows)).map Executed.hindsightToken = some "1234****" := by
    decide
  refine ⟨(accepted_iff aTable).mpr (.inr nofun), hbefore, hafter, fun h => ?_⟩
  rw [h.executed, hbefore] at hafter
  exact absurd hafter (by decide)

end Errand.Server.SettingsSave

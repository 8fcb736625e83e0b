import Errand.Server.DefaultProvider
import Errand.Server.SettingsRegistry

/-
  Errand.Server.ModelSettings — the settings that name a model, and what the operations on
  providers do to them (`_clear_model_settings_for_provider`, `model_selection_state` and
  `establish_model_settings_if_unset` of errand/llm_providers.py, `delete_provider` of
  errand/main.py, `scan_env_providers`, and `scan_local_ai` of errand/local_ai_detection.py).

  The tables are those of the providers, in which ids and names are unique, the settings by
  their keys, and the task profiles with their model overrides. How an id is written and
  which texts are read as it is `Ids`. The listing a provider answers with is open.

  Proved:
  - `clearAll_eq`: removing providers clears the settings of three keys that name one of
    them in the form ids are written in, and no other.
  - `anyRoleConfigured_iff`: a role counts as configured by what its setting says, whether
    its provider is there or serves the model or not.
  - `gone_scanEnv`, `gone_scanLocal`: which providers a scan removes.
  - `established_of`, `established_not`: a scan sets both roles, where none is set, by the one
    model of the first runtime it registers, and otherwise only clears.
-/

namespace Errand.Server.ModelSettings

open Errand.Lib Errand.Server.Providers
open Errand.Server.SettingsRegistry (modelOf modelSettingKeys noModel)

/-- `str(id)`, and `uuid.UUID(text)`, which takes other forms too. -/
structure Ids where
  text : Nat → String
  read : String → Option Nat
  read_text : ∀ id, read (text id) = some id

theorem Ids.text_injective (ids : Ids) : Function.Injective ids.text := by
  intro a b h
  have hread := congrArg ids.read h
  rw [ids.read_text, ids.read_text] at hread
  exact Option.some.inj hread

/-- The rows of the settings table. -/
abbrev Rows := String → Option Json

structure Profile where
  name : String
  /-- The model override. -/
  model : Option Json

structure Tables where
  providers : List Provider
  settings : Rows
  profiles : List Profile
  keyed : Keyed providers

section Open

variable (ids : Ids)

/-! ## Clearing -/

/-- The keys `_clear_model_settings_for_provider` looks at. -/
def clearedKeys : List String := ["llm_model", "task_processing_model", "transcription_model"]

/-- `str(value.get("provider_id", "")) == str(id)` for a dict; only a text reads as an id. -/
def refersTo (id : Nat) (value : Json) : Bool := Json.fieldIs "provider_id" (ids.text id) value

/-- `_clear_model_settings_for_provider`. -/
def clearModelSettings (rows : Rows) (id : Nat) : Rows := fun key =>
  if clearedKeys.contains key && (rows key).any (refersTo ids id) then some noModel else rows key

def clearAll (rows : Rows) (removed : List Nat) : Rows := removed.foldl (clearModelSettings ids) rows

/-! ## The selection -/

/-- `MODEL_ROLE_SETTINGS`. -/
def roleSettings : List String := ["llm_model", "task_processing_model"]

/-- A setting that says something: a text that is not blank, or a dict with a model. -/
def chosen : Option Json → Bool
  | some (.str s) => !(PyStr.stripString s).isEmpty
  | some (.obj fields) => (modelOf (.obj fields)).truthy
  | _ => false

/-- The provider and the model of a setting that names both, if the provider is there. -/
def resolvedRole (providers : List Provider) : Option Json → Option (Provider × Json)
  | some (.obj fields) =>
    let model := modelOf (.obj fields)
    if model.truthy then
      (providers.find? fun p => Json.fieldIs "provider_id" (ids.text p.id) (.obj fields)).map (·, model)
    else none
  | _ => none

variable (models : Provider → Option (List String))

/-- The provider serves the model, or its listing cannot be read. -/
def serves (role : Provider × Json) : Bool :=
  match models role.1, role.2 with
  | none, _ => true
  | some served, .str model => served.contains model
  | some _, _ => false

structure Selection where
  configured : Bool
  provider : Option Provider
  model : Option Json
  anyRoleConfigured : Bool

/-- `model_selection_state`. -/
def modelSelectionState (providers : List Provider) (rows : Rows) : Selection :=
  let resolved := (roleSettings.filterMap fun key => resolvedRole ids providers (rows key)).filter (serves models)
  let configured := decide (resolved.length = roleSettings.length)
  { configured := configured
    provider := if configured then resolved.head?.map (·.1) else none
    model := if configured then resolved.head?.map (·.2) else none
    anyRoleConfigured := !resolved.isEmpty || roleSettings.any fun key => chosen (rows key) }

def selectionOf (id : Nat) (model : String) : Json := .obj [("provider_id", .str (ids.text id)), ("model", .str model)]

/-- `set_model_selection`. -/
def setModelSelection (rows : Rows) (p : Provider) (model : String) : Rows := fun key =>
  if roleSettings.contains key then some (selectionOf ids p.id model) else rows key

/-- `establish_model_settings_if_unset`; the gate is read again after the listing. -/
def establishIfUnset (providers : List Provider) (rows : Rows) (p : Provider) : Option String × Rows :=
  if (modelSelectionState ids models providers rows).anyRoleConfigured then (none, rows)
  else
    match models p with
    | some [model] =>
      if (modelSelectionState ids models providers rows).anyRoleConfigured then (none, rows)
      else (some model, setModelSelection ids rows p model)
    | _ => (none, rows)

/-! ## The operations that remove providers -/

variable (cipher : Cipher)

/-- `DELETE /api/llm/providers/{id}`. -/
def deleteProvider (t : Tables) (id : Nat) : Reply × Tables :=
  let reply := (Providers.deleteProvider t.providers id).1
  (reply,
    { t with
      providers := (Providers.deleteProvider t.providers id).2
      settings := if reply = .noContent then clearModelSettings ids t.settings id else t.settings
      keyed := deleteProvider_keyed t.keyed id })

/-- The table of a scan of the environment before it cleans up. -/
def upsertedEnv (providers : List Provider) (vars : List EnvVars) (o : Outside) : List Provider :=
  let es := envProviders vars
  let rows := upsertAll cipher o providers 0 es
  if es.isEmpty then rows else rows.map (clearDefaults (es.map EnvProvider.name))

/-- A provider of the environment that the variables do not name. -/
def staleEnv (vars : List EnvVars) (p : Provider) : Bool :=
  decide (p.source = .env ∧ p.name ∉ (envProviders vars).map EnvProvider.name)

/-- `scan_env_providers`. -/
def scanEnvProviders (t : Tables) (vars : List EnvVars) (o : Outside) : Tables :=
  let stale := (upsertedEnv cipher t.providers vars o).filter (staleEnv vars)
  { t with
    providers := Providers.scanEnvProviders cipher t.providers vars o
    settings := clearAll ids t.settings (stale.map Provider.id)
    keyed := scanEnv_keyed cipher t.keyed vars o }

/-- The table of a scan for local runtimes when what was found is registered. -/
def registering (providers : List Provider) (o : Outside) (gateway : String) : Registering :=
  (candidatePorts.filterMap (detectAt cipher providers o gateway)).foldl
    (fun r info => register cipher o (detectedRow providers info.baseUrl) r info)
    ⟨providers, decide (providers.length = 0), []⟩

structure LocalScan where
  scan : Providers.LocalScan
  modelConfiguredAfterScan : Option Bool
  modelEstablished : Option String
  registeredProvider : Option Provider

/-- The settings when the departed providers are gone. -/
def reapedSettings (t : Tables) (o : Outside) (gateway : String) : Rows :=
  clearAll ids t.settings (((registering cipher t.providers o gateway).rows.filter
    (departed cipher t.providers o gateway)).map Provider.id)

/-- The provider of the first runtime that is registered. -/
def registeredProvider (t : Tables) (o : Outside) : Option Provider :=
  (scanLocalAi cipher t.providers o).1.detected.head?.bind fun info =>
    detectedRow (scanLocalAi cipher t.providers o).2 (canonicalBaseUrl info.baseUrl)

/-- What a scan establishes; nothing where a role was configured before it. -/
def established (t : Tables) (o : Outside) (gateway : String) : Option String × Rows :=
  match registeredProvider cipher t o with
  | some p =>
    if (modelSelectionState ids models t.providers t.settings).anyRoleConfigured then
      (none, reapedSettings ids cipher t o gateway)
    else establishIfUnset ids models (scanLocalAi cipher t.providers o).2 (reapedSettings ids cipher t o gateway) p
  | none => (none, reapedSettings ids cipher t o gateway)

/-- `scan_local_ai`. -/
def scanLocal (t : Tables) (o : Outside) : LocalScan × Tables :=
  match localGateway o with
  | none => (⟨(scanLocalAi cipher t.providers o).1, none, none, none⟩, t)
  | some gateway =>
    let (modelEstablished, settings) := established ids models cipher t o gateway
    let providers := (scanLocalAi cipher t.providers o).2
    (⟨(scanLocalAi cipher t.providers o).1, some (modelSelectionState ids models providers settings).configured,
        modelEstablished, registeredProvider cipher t o⟩,
      { t with
        providers := providers
        settings := settings
        keyed := scanLocal_keyed t.keyed o })

end Open

variable {ids : Ids} {models : Provider → Option (List String)} {cipher : Cipher}

/-! ## What is cleared -/

theorem refersTo_iff {id : Nat} {value : Json} :
    refersTo ids id value = true ↔ value.get? "provider_id" = some (.str (ids.text id)) := by
  unfold refersTo Json.fieldIs
  cases value.get? "provider_id" with
  | none => simp
  | some v => cases v <;> simp

theorem refersTo_noModel (id : Nat) : refersTo ids id noModel = false := rfl

/-- Removing providers clears the settings of the three keys that name one of them. -/
theorem clearAll_eq (rows : Rows) (removed : List Nat) (key : String) :
    clearAll ids rows removed key =
      if clearedKeys.contains key && (rows key).any fun value => removed.any (refersTo ids · value) then some noModel
      else rows key := by
  induction removed generalizing rows with
  | nil =>
    have hnone : ((rows key).any fun value => ([] : List Nat).any (refersTo ids · value)) = false := by
      cases rows key <;> rfl
    rw [hnone, Bool.and_false]
    rfl
  | cons id removed ih =>
    have hstep : clearAll ids rows (id :: removed) = clearAll ids (clearModelSettings ids rows id) removed := rfl
    rw [hstep, ih]
    unfold clearModelSettings
    cases hkey : clearedKeys.contains key with
    | false => simp
    | true =>
      cases hrow : rows key with
      | none => simp
      | some value =>
        cases hid : refersTo ids id value with
        | false => simp [hid]
        | true => simp [hid, refersTo_noModel]

/-! ## What counts as configured -/

theorem chosen_of_resolved {providers : List Provider} {raw : Option Json} {role : Provider × Json}
    (h : resolvedRole ids providers raw = some role) : chosen raw = true := by
  unfold resolvedRole at h
  split at h
  · dsimp only at h
    split at h
    · assumption
    · cases h
  · cases h

/-- A role counts by what its setting says. -/
theorem anyRoleConfigured_iff (providers : List Provider) (rows : Rows) :
    (modelSelectionState ids models providers rows).anyRoleConfigured =
      roleSettings.any fun key => chosen (rows key) := by
  unfold modelSelectionState
  dsimp only
  cases hnone : ((roleSettings.filterMap fun key => resolvedRole ids providers (rows key)).filter
      (serves models)).isEmpty with
  | true => rfl
  | false =>
    obtain ⟨role, hrole⟩ := List.exists_mem_of_ne_nil _ (List.isEmpty_eq_false_iff.mp hnone)
    obtain ⟨key, hkey, hresolved⟩ := List.mem_filterMap.mp (List.mem_filter.mp hrole).1
    exact (List.any_eq_true.mpr ⟨key, hkey, chosen_of_resolved hresolved⟩).symm

theorem chosen_noModel : chosen (some noModel) = false := rfl

/-- Clearing configures nothing. -/
theorem chosen_of_cleared {rows : Rows} {removed : List Nat} {key : String}
    (h : chosen (clearAll ids rows removed key) = true) : chosen (rows key) = true := by
  rw [clearAll_eq] at h
  split at h
  · rw [chosen_noModel] at h
    cases h
  · exact h

/-! ## Which providers go -/

/-- No provider has the id any more. -/
def Gone (providers : List Provider) (id : Nat) : Prop := ∀ q ∈ providers, q.id ≠ id

theorem gone_filter_iff {rows : List Provider} (hk : Keyed rows) (stale : Provider → Bool) {p : Provider}
    (hp : p ∈ rows) : Gone (rows.filter fun q => !stale q) p.id ↔ stale p = true := by
  constructor
  · intro h
    by_contra hstale
    exact h p (List.mem_filter.mpr ⟨hp, by simpa using hstale⟩) rfl
  · intro hstale q hq hid
    obtain ⟨hq, hkept⟩ := List.mem_filter.mp hq
    rw [eq_of_key hk.ids hq hp hid, hstale] at hkept
    cases hkept

theorem upsertEnv_same (cipher : Cipher) {rows : List Provider} (o : Outside) (e : EnvProvider) (d : Bool)
    {p : Provider} (hp : p ∈ rows) :
    ∃ q ∈ upsertEnv cipher o rows e d, q.id = p.id ∧ q.name = p.name := by
  unfold upsertEnv
  cases named rows e.name with
  | none => exact ⟨p, List.mem_append_left _ hp, rfl, rfl⟩
  | some _ =>
    refine ⟨_, List.mem_map_of_mem hp, ?_⟩
    by_cases hname : p.name = e.name
    · rw [if_pos hname]
      exact ⟨rfl, rfl⟩
    · rw [if_neg hname]
      exact ⟨rfl, rfl⟩

theorem upsertAll_same (cipher : Cipher) {rows : List Provider} (o : Outside) (index : Nat) (es : List EnvProvider)
    {p : Provider} (hp : p ∈ rows) : ∃ q ∈ upsertAll cipher o rows index es, q.id = p.id ∧ q.name = p.name := by
  induction es generalizing rows index p with
  | nil => exact ⟨p, hp, rfl, rfl⟩
  | cons e es ih =>
    obtain ⟨q, hq, hid, hname⟩ := upsertEnv_same cipher o e (decide (index = 0)) hp
    obtain ⟨r, hr, hid', hname'⟩ := ih (index + 1) hq
    exact ⟨r, hr, hid'.trans hid, hname'.trans hname⟩

/-- A row the variables do not name was there before. -/
theorem upsertAll_origin {rows : List Provider} {o : Outside} {index : Nat} {es : List EnvProvider} {q : Provider}
    (hq : q ∈ upsertAll cipher o rows index es) (hname : q.name ∉ es.map EnvProvider.name) : q ∈ rows := by
  induction es generalizing rows index with
  | nil => exact hq
  | cons e es ih =>
    rw [List.map_cons, List.mem_cons, not_or] at hname
    rcases upsertEnv_mem (ih hq hname.2) with ⟨heq, -⟩ | ⟨hq, -⟩
    · exact absurd heq hname.1
    · exact hq

theorem scanEnv_eq (rows : List Provider) (vars : List EnvVars) (o : Outside) :
    Providers.scanEnvProviders cipher rows vars o =
      (upsertedEnv cipher rows vars o).filter fun p => !staleEnv vars p := by
  have hstale : (fun p => !staleEnv vars p) =
      fun p : Provider => decide (p.source ≠ .env ∨ p.name ∈ (envProviders vars).map EnvProvider.name) := by
    funext p
    simp only [staleEnv, ← decide_not, not_and_or, not_not]
  rw [hstale]
  rfl

theorem upsertedEnv_eq (cipher : Cipher) (rows : List Provider) (vars : List EnvVars) (o : Outside) :
    ∃ f : Provider → Provider, (∀ p, (f p).id = p.id ∧ (f p).name = p.name ∧ (f p).source = p.source) ∧
      upsertedEnv cipher rows vars o = (upsertAll cipher o rows 0 (envProviders vars)).map f := by
  unfold upsertedEnv
  dsimp only
  split
  · exact ⟨id, fun _ => ⟨rfl, rfl, rfl⟩, (List.map_id _).symm⟩
  · refine ⟨_, fun p => ⟨clearDefaults_id _ p, clearDefaults_name _ p, ?_⟩, rfl⟩
    unfold clearDefaults
    split <;> rfl

section Env

variable {rows : List Provider} {vars : List EnvVars} {o : Outside}

theorem staleEnv_congr {p q : Provider} (hname : q.name = p.name) (hsource : q.source = p.source) :
    staleEnv vars q = staleEnv vars p := by
  unfold staleEnv
  rw [hname, hsource]

/-- The stale rows are those that were stale before. -/
theorem stale_iff {id : Nat} :
    id ∈ ((upsertedEnv cipher rows vars o).filter (staleEnv vars)).map Provider.id ↔
      ∃ p ∈ rows, staleEnv vars p = true ∧ p.id = id := by
  obtain ⟨f, hf, heq⟩ := upsertedEnv_eq cipher rows vars o
  rw [heq, List.mem_map]
  constructor
  · rintro ⟨q, hq, rfl⟩
    obtain ⟨hq, hstale⟩ := List.mem_filter.mp hq
    obtain ⟨p, hp, rfl⟩ := List.mem_map.mp hq
    rw [staleEnv_congr (hf p).2.1 (hf p).2.2] at hstale
    exact ⟨p, upsertAll_origin hp (of_decide_eq_true hstale).2, hstale, (hf p).1.symm⟩
  · rintro ⟨p, hp, hstale, rfl⟩
    have hkept := upsertAll_keeps cipher o 0 hp (of_decide_eq_true hstale).2
    refine ⟨f p, List.mem_filter.mpr ⟨List.mem_map_of_mem hkept, ?_⟩, (hf p).1⟩
    rw [staleEnv_congr (hf p).2.1 (hf p).2.2]
    exact hstale

variable (hk : Keyed rows)
include hk

theorem upsertedEnv_keyed : Keyed (upsertedEnv cipher rows vars o) := by
  obtain ⟨f, hf, heq⟩ := upsertedEnv_eq cipher rows vars o
  rw [heq]
  exact (upsertAll_keyed hk o 0 _).map (fun p _ => (hf p).1) (fun p _ => (hf p).2.1)

theorem gone_scanEnv {p : Provider} (hp : p ∈ rows) :
    Gone (Providers.scanEnvProviders cipher rows vars o) p.id ↔ staleEnv vars p = true := by
  rw [scanEnv_eq]
  obtain ⟨f, hf, heq⟩ := upsertedEnv_eq cipher rows vars o
  obtain ⟨q, hq, hid, hname⟩ := upsertAll_same cipher o 0 (envProviders vars) hp
  have hmem : f q ∈ upsertedEnv cipher rows vars o := by
    rw [heq]
    exact List.mem_map_of_mem hq
  rw [← hid, ← (hf q).1, gone_filter_iff (upsertedEnv_keyed hk) _ hmem, staleEnv_congr (hf q).2.1 (hf q).2.2]
  by_cases hnames : p.name ∈ (envProviders vars).map EnvProvider.name
  · have hp' : staleEnv vars p = false := by simp [staleEnv, hnames]
    have hq' : staleEnv vars q = false := by simp [staleEnv, hname, hnames]
    rw [hp', hq']
  · rw [eq_of_key hk.ids (upsertAll_origin hq (by rw [hname]; exact hnames)) hp hid]

end Env

section Local

variable {rows : List Provider} (hk : Keyed rows) {o : Outside} {gateway : String}

theorem scanLocal_eq (hg : localGateway o = some gateway) :
    (scanLocalAi cipher rows o).2 =
      (registering cipher rows o gateway).rows.filter fun p => !departed cipher rows o gateway p := by
  unfold scanLocalAi
  rw [hg]
  rfl

theorem registering_grown (cipher : Cipher) {rows : List Provider} (hk : Keyed rows) (o : Outside) (gateway : String) :
    ∃ f new, Grown rows (candidatePorts.filterMap (detectAt cipher rows o gateway)) (registering cipher rows o gateway)
      f new :=
  grown_all cipher hk o _

include hk

/-- The departed rows are those that were there before. -/
theorem departed_iff {id : Nat} :
    id ∈ ((registering cipher rows o gateway).rows.filter (departed cipher rows o gateway)).map Provider.id ↔
      ∃ p ∈ rows, departed cipher rows o gateway p = true ∧ p.id = id := by
  obtain ⟨f, new, h⟩ := registering_grown cipher hk o gateway
  have hf : ∀ p, departed cipher rows o gateway (f p) = departed cipher rows o gateway p ∧ (f p).id = p.id := by
    intro p
    obtain ⟨t, ht⟩ := h.retyped p
    rw [ht]
    exact ⟨rfl, rfl⟩
  rw [h.rows_eq, List.mem_map]
  constructor
  · rintro ⟨q, hq, rfl⟩
    obtain ⟨hq, hdeparted⟩ := List.mem_filter.mp hq
    rcases List.mem_append.mp hq with hq | hq
    · obtain ⟨p, hp, rfl⟩ := List.mem_map.mp hq
      exact ⟨p, hp, (hf p).1 ▸ hdeparted, (hf p).2.symm⟩
    · simp [departed, detectAt_present (h.answered q hq)] at hdeparted
  · rintro ⟨p, hp, hdeparted, rfl⟩
    exact ⟨f p, List.mem_filter.mpr ⟨List.mem_append_left _ (List.mem_map_of_mem hp), (hf p).1 ▸ hdeparted⟩, (hf p).2⟩

theorem gone_scanLocal (hg : localGateway o = some gateway) {p : Provider} (hp : p ∈ rows) :
    Gone (scanLocalAi cipher rows o).2 p.id ↔ departed cipher rows o gateway p = true := by
  obtain ⟨f, new, h⟩ := registering_grown cipher hk o gateway
  obtain ⟨t, ht⟩ := h.retyped p
  have hmem : f p ∈ (registering cipher rows o gateway).rows := by
    rw [h.rows_eq]
    exact List.mem_append_left _ (List.mem_map_of_mem hp)
  have hgone := gone_filter_iff h.keyed (departed cipher rows o gateway) hmem
  rw [scanLocal_eq hg]
  rw [ht] at hgone
  exact hgone

end Local

/-! ## What a scan establishes -/

section Established

variable {t : Tables} {o : Outside} {gateway : String}

/-- No role is set, and the first runtime that is registered serves one model. -/
def Establishes (models : Provider → Option (List String)) (cipher : Cipher) (t : Tables) (o : Outside) : Prop :=
  (∀ key ∈ roleSettings, chosen (t.settings key) = false) ∧
    ∃ p model, registeredProvider cipher t o = some p ∧ models p = some [model]

theorem detectedRow_spec {rows : List Provider} {url : String} {p : Provider} (h : detectedRow rows url = some p) :
    p ∈ rows ∧ p.source = .detected ∧ canonicalBaseUrl p.baseUrl = url := by
  have hfound := List.find?_some h
  have hmem := List.mem_of_find?_eq_some h
  obtain ⟨hsource, hurl⟩ := of_decide_eq_true hfound
  exact ⟨(List.mem_insertionSort _).mp hmem, hsource, hurl⟩

theorem registeredProvider_mem {p : Provider} (h : registeredProvider cipher t o = some p) :
    p ∈ (scanLocalAi cipher t.providers o).2 := by
  obtain ⟨info, -, hrow⟩ := Option.bind_eq_some_iff.mp h
  exact (detectedRow_spec hrow).1

/-- A role that was set stops the scan, and one that the reaping cleared too. -/
theorem establishes_iff_gates (ids : Ids) (models : Provider → Option (List String)) (removed : List Nat)
    (providers : List Provider) :
    (∀ key ∈ roleSettings, chosen (t.settings key) = false) ↔
      (modelSelectionState ids models t.providers t.settings).anyRoleConfigured = false ∧
        (modelSelectionState ids models providers (clearAll ids t.settings removed)).anyRoleConfigured = false := by
  rw [anyRoleConfigured_iff, anyRoleConfigured_iff, List.any_eq_false, List.any_eq_false]
  constructor
  · intro h
    refine ⟨fun key hkey hchosen => ?_, fun key hkey hchosen => ?_⟩
    · rw [h key hkey] at hchosen
      cases hchosen
    · have hbefore := chosen_of_cleared hchosen
      rw [h key hkey] at hbefore
      cases hbefore
  · rintro ⟨h, -⟩ key hkey
    simpa using h key hkey

theorem established_of (ids : Ids) (gateway : String) (h : Establishes models cipher t o) :
    ∃ p model, registeredProvider cipher t o = some p ∧ models p = some [model] ∧
      established ids models cipher t o gateway =
        (some model, setModelSelection ids (reapedSettings ids cipher t o gateway) p model) := by
  obtain ⟨hroles, p, model, hp, hmodels⟩ := h
  refine ⟨p, model, hp, hmodels, ?_⟩
  obtain ⟨hbefore, hafter⟩ :=
    (establishes_iff_gates ids models _ (scanLocalAi cipher t.providers o).2).mp hroles
  unfold established
  rw [hp]
  simp only [hbefore, Bool.false_eq_true, if_false]
  unfold establishIfUnset
  unfold reapedSettings
  rw [hafter, hmodels]
  rfl

theorem established_not (ids : Ids) (gateway : String) (h : ¬ Establishes models cipher t o) :
    established ids models cipher t o gateway = (none, reapedSettings ids cipher t o gateway) := by
  unfold established
  cases hp : registeredProvider cipher t o with
  | none => rfl
  | some p =>
    dsimp only
    split
    · rfl
    · rename_i hbefore
      have hroles : ∀ key ∈ roleSettings, chosen (t.settings key) = false := by
        rw [anyRoleConfigured_iff, Bool.not_eq_true, List.any_eq_false] at hbefore
        intro key hkey
        simpa using hbefore key hkey
      unfold establishIfUnset
      split
      · rfl
      · split
        · rename_i model hmodels
          exact absurd ⟨hroles, p, model, hp, hmodels⟩ h
        · rfl

end Established

end Errand.Server.ModelSettings

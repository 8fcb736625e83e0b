import Errand.Server.SettingsUpdate

/-
  Errand.Server.SavedPage — what PUT /api/settings stores when the page that GET reports is
  sent back, for a table whose values pass their validators.

  A value that is reported has the type of its setting's default, and a value of that type is
  stored and reported as it is; a model's two names, once in sync, stay so.

  Proved:
  - `page_accepted`: every value of the page passes its check.
  - `saved_env`, `saved_value`, `saved_token`, `saved_other`: the row a save leaves of each key.
  - `page_saved`: GET reports after it what it reported before.
-/

namespace Errand.Server.SavedPage

open Errand.Lib Errand.Lib.Transaction Errand.Server.SettingsRegistry Errand.Server.RunnerSettings
open Errand.Server.SettingsUpdate

/-! ## What a value resolves to -/

section Values

variable {builtins : Builtins} {env : String → Option String} {rows : Rows}

theorem coerce_self (d : Json) : coerce builtins d d = some d := by
  cases d <;> rfl

theorem coerce_obj {value v : Json} {fields : List (String × Json)}
    (h : coerce builtins value (.obj fields) = some v) : ∃ other, v = .obj other := by
  cases value with
  | obj other => exact ⟨other, (Option.some.inj h).symm⟩
  | str s =>
    obtain ⟨-, hv⟩ := Option.filter_eq_some_iff.mp h
    cases v with
    | obj other => exact ⟨other, rfl⟩
    | _ => cases hv
  | _ => cases h

/-- What a value is coerced to stays as it is. -/
theorem coerce_coerce {value d v : Json} (h : coerce builtins value d = some v) : coerce builtins v d = some v := by
  cases d with
  | bool b =>
    have hbool : ∃ c, v = .bool c := by
      cases value with
      | bool c => exact ⟨c, (Option.some.inj h).symm⟩
      | str s =>
        rw [coerce] at h
        split at h
        · exact ⟨true, (Option.some.inj h).symm⟩
        · split at h
          · exact ⟨false, (Option.some.inj h).symm⟩
          · cases h
      | _ => cases h
    obtain ⟨c, rfl⟩ := hbool
    rfl
  | int n =>
    obtain ⟨m, -, rfl⟩ := Option.map_eq_some_iff.mp h
    rfl
  | str s =>
    have htext : ∃ t, v = .str t := by
      cases value <;> exact ⟨_, (Option.some.inj h).symm⟩
    obtain ⟨t, rfl⟩ := htext
    rfl
  | obj fields =>
    obtain ⟨other, rfl⟩ := coerce_obj h
    rfl
  | arr items =>
    have harr : ∃ items, v = .arr items := by
      cases value with
      | arr items => exact ⟨items, (Option.some.inj h).symm⟩
      | str s =>
        obtain ⟨-, hv⟩ := Option.filter_eq_some_iff.mp h
        cases v with
        | arr items => exact ⟨items, rfl⟩
        | _ => cases hv
      | _ => cases h
    obtain ⟨items, rfl⟩ := harr
    rfl
  | _ => rfl

/-- A setting resolves to a value of its own type. -/
theorem coerce_resolved (key : String) (info : Meta) :
    coerce builtins (resolveSettingValue builtins env rows key info).1 info.default =
      some (resolveSettingValue builtins env rows key info).1 := by
  rw [resolve_raw]
  cases raw env rows key info with
  | none => exact coerce_self _
  | some value =>
    show coerce builtins ((coerce builtins value info.default).getD info.default) info.default =
      some ((coerce builtins value info.default).getD info.default)
    cases hvalue : coerce builtins value info.default with
    | none => exact coerce_self _
    | some v => exact coerce_coerce hvalue

theorem resolve_source {key : String} {info : Meta} (henv : envText env info = none) :
    (resolveSettingValue builtins env rows key info).2 ≠ .env := by
  have hcoerce : ∀ value, (coerceOr builtins value info .database).2 ≠ .env := by
    intro value
    rw [coerceOr]
    split <;> exact nofun
  cases hrow : rows key with
  | none =>
    rw [resolve_default henv hrow]
    exact nofun
  | some value =>
    rw [resolve_row henv hrow]
    exact hcoerce value

/-- Only a setting the environment does not give depends on its row. -/
theorem resolve_congr {other : Rows} {key : String} {info : Meta} (h : envText env info = none → other key = rows key) :
    resolveSettingValue builtins env other key info = resolveSettingValue builtins env rows key info := by
  cases henv : envText env info with
  | some s => rw [resolve_env henv, resolve_env henv]
  | none => rw [resolveSettingValue, resolveSettingValue, henv, h henv]

/-- A value of the setting's type that is stored is what it resolves to. -/
theorem resolve_stored {key : String} {info : Meta} {value : Json} (henv : envText env info = none)
    (hrow : rows key = some value) (hvalue : coerce builtins value info.default = some value) :
    resolveSettingValue builtins env rows key info = (value, .database) := by
  rw [resolve_row henv hrow, coerceOr, hvalue]

theorem normalize_eq (fields : List (String × Json)) :
    normalizeModelSettingValue (.obj fields) =
      if modelOf (.obj fields) matches .null then .obj fields
      else ((Json.obj fields).set "model" (modelOf (.obj fields))).set "model_id" (modelOf (.obj fields)) := rfl

/-- An object stays, or has both names set. -/
theorem normalize_cases (fields : List (String × Json)) :
    normalizeModelSettingValue (.obj fields) = .obj fields ∨
      normalizeModelSettingValue (.obj fields) =
        ((Json.obj fields).set "model" (modelOf (.obj fields))).set "model_id" (modelOf (.obj fields)) := by
  rw [normalize_eq]
  split
  · exact .inl rfl
  · exact .inr rfl

theorem normalize_obj (fields : List (String × Json)) :
    ∃ other, normalizeModelSettingValue (.obj fields) = .obj other := by
  rcases normalize_cases fields with h | h
  · exact ⟨fields, h⟩
  · exact ⟨_, h⟩

/-- Both names are what they are set to. -/
theorem set_models (fields : List (String × Json)) (model : Json) :
    ((((Json.obj fields).set "model" model).set "model_id" model).set "model" model).set "model_id" model =
      ((Json.obj fields).set "model" model).set "model_id" model := by
  have hid : (((Json.obj fields).set "model" model).set "model_id" model).get? "model_id" = some model :=
    Json.lookup_setField_self ..
  have hmodel : (((Json.obj fields).set "model" model).set "model_id" model).get? "model" = some model := by
    rw [Json.get?_set_other _ (by decide)]
    exact Json.lookup_setField_self ..
  rw [Json.set_get? hmodel, Json.set_get? hid]

/-- The two names are in sync once. -/
theorem normalize_normalize (value : Json) :
    normalizeModelSettingValue (normalizeModelSettingValue value) = normalizeModelSettingValue value := by
  cases value with
  | obj fields =>
    have heq := normalize_eq fields
    by_cases hnull : (modelOf (.obj fields) matches .null) = true
    · rw [if_pos hnull] at heq
      rw [heq, heq]
    · rw [if_neg hnull] at heq
      have hsame : modelOf (.obj (Json.setField "model_id" (modelOf (.obj fields))
          (Json.setField "model" (modelOf (.obj fields)) fields))) = modelOf (.obj fields) := modelOf_set fields _
      have hagain := normalize_eq (Json.setField "model_id" (modelOf (.obj fields))
        (Json.setField "model" (modelOf (.obj fields)) fields))
      rw [hsame, if_neg hnull] at hagain
      rw [heq]
      exact hagain.trans (set_models fields _)
  | _ => rfl

/-- How GET reports a value of a key that is not masked. -/
def reported (key : String) (value : Json) : Json :=
  if modelSettingKeys.contains key then normalizeModelSettingValue value else value

theorem reported_reported (key : String) (value : Json) : reported key (reported key value) = reported key value := by
  rw [reported]
  split
  · rename_i hkey
    rw [reported, if_pos hkey, normalize_normalize]
  · rfl

theorem reported_unmasked {key : String} {info : Meta} (henv : envText env info = none)
    (hmask : info.maskAlways = false) :
    (resolveSetting builtins env rows key info).value =
      reported key (resolveSettingValue builtins env rows key info).1 := by
  have hsource : (resolveSettingValue builtins env rows key info).2 ≠ .env := resolve_source henv
  rw [resolveSetting]
  rcases hresolved : resolveSettingValue builtins env rows key info with ⟨value, source⟩
  rw [hresolved] at hsource
  have hplain : ¬ (info.sensitive = true ∧ value.truthy = true ∧ (source = .env ∨ info.maskAlways = true)) := by
    rintro ⟨-, -, h | h⟩
    · exact hsource h
    · rw [hmask] at h
      cases h
  show (if modelSettingKeys.contains key then normalizeModelSettingValue (if _ then _ else value) else _) = _
  rw [if_neg hplain, reported]

end Values

/-! ## The registry's keys -/

section Registry

variable {env : String → Option String} {key : String} {info : Meta}

theorem registry_nodup : (settingsRegistry.map Prod.fst).Nodup := by decide

theorem registry_plain :
    ∀ entry ∈ settingsRegistry, (entry.1 == "skills" || excludedKeys.contains entry.1) = false := by decide

theorem registry_masked :
    ∀ entry ∈ settingsRegistry, entry.2.maskAlways = true → entry.1 = "hindsight_token" := by decide

/-- A key of which null is cleared holds no null. -/
theorem registry_cleared :
    ∀ entry ∈ settingsRegistry, nullClearsKeys.contains entry.1 = true →
      (entry.2.default matches .int _) || (entry.2.default matches .str _) := by decide

theorem registry_models :
    ∀ entry ∈ settingsRegistry, modelSettingKeys.contains entry.1 = true → entry.2.default matches .obj _ := by
  decide

theorem lookup_registry (h : (key, info) ∈ settingsRegistry) : settingsRegistry.lookup key = some info := by
  obtain ⟨before, after, heq⟩ := List.append_of_mem h
  have hnodup := registry_nodup
  rw [heq, List.map_append, List.map_cons] at hnodup
  have hbefore : ∀ p ∈ before, key != p.1 := by
    intro p hp
    have hne : p.1 ≠ key := (List.nodup_append.mp hnodup).2.2 p.1 (List.mem_map_of_mem hp) key List.mem_cons_self
    exact bne_iff_ne.mpr hne.symm
  exact List.lookup_eq_some_iff.mpr ⟨before, after, heq, hbefore⟩

theorem mem_registry (h : settingsRegistry.lookup key = some info) : (key, info) ∈ settingsRegistry := by
  obtain ⟨before, after, heq, -⟩ := List.lookup_eq_some_iff.mp h
  rw [heq]
  exact List.mem_append_right _ List.mem_cons_self

theorem givenByEnv_eq (h : (key, info) ∈ settingsRegistry) : givenByEnv env key = (envText env info).isSome := by
  rw [givenByEnv, lookup_registry h]
  rfl

theorem skipped_eq (h : (key, info) ∈ settingsRegistry) : skipped env key = (envText env info).isSome := by
  rw [skipped, registry_plain _ h, Bool.false_or, givenByEnv_eq h]

end Registry

/-! ## What a save of the page writes -/

section Page

variable {builtins : Builtins} {env : String → Option String} {rows : Rows} {key : String} {info : Meta}

theorem page_eq : page builtins env rows =
    settingsRegistry.map fun entry => (entry.1, (resolveSetting builtins env rows entry.1 entry.2).value) := by
  have hkept : ∀ entry ∈ settingsRegistry, (!excludedKeys.contains entry.1) = true := by decide
  rw [page, resolveSettings, List.filter_eq_self.mpr hkept, List.map_map]
  rfl

theorem page_nodup : ((page builtins env rows).map Prod.fst).Nodup := by
  rw [page_eq, List.map_map]
  exact registry_nodup

theorem mem_page (h : (key, info) ∈ settingsRegistry) :
    (key, (resolveSetting builtins env rows key info).value) ∈ page builtins env rows := by
  rw [page_eq]
  exact List.mem_map_of_mem h

/-- A value that is neither masked nor cleared is stored. -/
theorem written_value {value : Json} (hmask : info.maskAlways = false) (h : (key, info) ∈ settingsRegistry)
    (hclear : clears key (reported key value) = false) (row : Option Json) :
    written builtins key value row = some (reported key value) := by
  have hno : isMask builtins key value row = false := by
    unfold isMask
    rw [lookup_registry h, Option.any_some, hmask, Bool.false_and]
  rw [written, hno, if_neg Bool.false_ne_true]
  show (if clears key (reported key value) then none else some (reported key value)) = _
  rw [hclear, if_neg Bool.false_ne_true]

theorem clears_reported (h : (key, info) ∈ settingsRegistry) :
    clears key (reported key (resolveSettingValue builtins env rows key info).1) = false := by
  unfold clears
  cases hkey : nullClearsKeys.contains key with
  | false => exact Bool.and_false _
  | true =>
    have htype := registry_cleared _ h hkey
    have hmodel : modelSettingKeys.contains key = false := by
      have hkeys : ∀ k ∈ nullClearsKeys, modelSettingKeys.contains k = false := by decide
      exact hkeys key (List.contains_iff_mem.mp hkey)
    unfold reported
    rw [hmodel, if_neg Bool.false_ne_true]
    cases hdefault : info.default with
    | int d => rw [resolve_number hdefault]; rfl
    | str d => rw [resolve_text hdefault]; rfl
    | _ =>
      rw [hdefault] at htype
      cases htype

end Page

/-! ## The page passes the checks -/

section Checks

variable {builtins : Builtins} {services : Services} {env : String → Option String} {rows : Rows}

theorem validate_unchecked {key : String} (h : (settingValidators services).lookup key = none) (value : Json) :
    validate services key value = .ok () := by
  rw [validate, h]

/-- A checked key's default and the values it may hold keep their type, so that what it
    resolves to passes too. -/
structure Checked (builtins : Builtins) (services : Services) (key : String) (info : Meta) : Prop where
  unmasked : info.maskAlways = false
  noModel : modelSettingKeys.contains key = false
  default : validate services key info.default = .ok ()
  same : ∀ value, validate services key value = .ok () → coerce builtins value info.default = some value

theorem Checked.resolved {key : String} {info : Meta} (h : Checked builtins services key info)
    (henv : envText env info = none) (hvalid : ∀ value, rows key = some value → validate services key value = .ok ()) :
    validate services key (resolveSettingValue builtins env rows key info).1 = .ok () := by
  cases hrow : rows key with
  | none =>
    rw [resolve_default henv hrow]
    exact h.default
  | some value =>
    rw [resolve_stored henv hrow (h.same value (hvalid value hrow))]
    exact hvalid value hrow

theorem Checked.page {key : String} {info : Meta} (h : Checked builtins services key info)
    (henv : envText env info = none) (hvalid : ∀ value, rows key = some value → validate services key value = .ok ()) :
    validate services key (resolveSetting builtins env rows key info).value = .ok () := by
  rw [reported_unmasked henv h.unmasked, reported, h.noModel]
  exact h.resolved henv hvalid

/-- A key whose default is an int, and whose validator lets nothing but an int pass. -/
theorem checked_int {key : String} {info : Meta} {d : Int} (hmask : info.maskAlways = false)
    (hmodel : modelSettingKeys.contains key = false) (hdefault : info.default = .int d)
    (hpasses : validate services key (.int d) = .ok ())
    (hint : ∀ value, validate services key value = .ok () → ∃ n, value = .int n) :
    Checked builtins services key info where
  unmasked := hmask
  noModel := hmodel
  default := by
    rw [hdefault]
    exact hpasses
  same := by
    intro value hvalue
    obtain ⟨n, rfl⟩ := hint value hvalue
    rw [hdefault]
    rfl

/-- A key whose default is a text, and whose validator lets nothing but a text pass. -/
theorem checked_text {key d : String} {info : Meta} (hmask : info.maskAlways = false)
    (hmodel : modelSettingKeys.contains key = false) (hdefault : info.default = .str d)
    (hpasses : validate services key (.str d) = .ok ())
    (htext : ∀ value, validate services key value = .ok () → ∃ s, value = .str s) :
    Checked builtins services key info where
  unmasked := hmask
  noModel := hmodel
  default := by
    rw [hdefault]
    exact hpasses
  same := by
    intro value hvalue
    obtain ⟨s, rfl⟩ := htext value hvalue
    rw [hdefault]
    rfl

theorem validate_utc : validate services "timezone" (.str "UTC") = .ok () := by
  have hutc : validateTimezone services (.str "UTC") = .ok none := by
    rw [validateTimezone, if_neg (by decide), services.utc]
  have hlookup : (settingValidators services).lookup "timezone" = some (validateTimezone services) := rfl
  unfold validate
  rw [hlookup]
  dsimp only
  rw [hutc]

theorem checked_entry {key : String} {info : Meta} {validator : Json → Except Refusal (Option String)}
    (h : (key, info) ∈ settingsRegistry) (hkey : (settingValidators services).lookup key = some validator) :
    Checked builtins services key info := by
  have hinfo := lookup_registry h
  obtain ⟨before, after, heq, -⟩ := List.lookup_eq_some_iff.mp hkey
  have hmem : key ∈ (settingValidators services).map Prod.fst := by
    rw [heq, List.map_append]
    exact List.mem_append_right _ List.mem_cons_self
  have hkeys : key = "plugin_poll_interval_seconds" ∨ key = "max_turns" ∨ key = "clarification_max_rounds" ∨
      key = "reasoning_effort" ∨ key = "task_runner_log_level" ∨ key = "timezone" := by
    simpa [settingValidators] using hmem
  rcases hkeys with rfl | rfl | rfl | rfl | rfl | rfl <;> cases hinfo
  · refine checked_int rfl rfl rfl rfl fun value hvalue => ?_
    cases value with
    | int n => exact ⟨n, rfl⟩
    | _ => cases hvalue
  · refine checked_int rfl rfl rfl rfl fun value hvalue => ?_
    cases value with
    | int n => exact ⟨n, rfl⟩
    | _ => cases hvalue
  · refine checked_int rfl rfl rfl rfl fun value hvalue => ?_
    cases value with
    | int n => exact ⟨n, rfl⟩
    | _ => cases hvalue
  · refine checked_text rfl rfl rfl rfl fun value hvalue => ?_
    cases value with
    | str s => exact ⟨s, rfl⟩
    | _ => cases hvalue
  · refine checked_text rfl rfl rfl rfl fun value hvalue => ?_
    cases value with
    | str s => exact ⟨s, rfl⟩
    | _ => cases hvalue
  · refine checked_text rfl rfl rfl validate_utc fun value hvalue => ?_
    cases value with
    | str s => exact ⟨s, rfl⟩
    | _ => cases hvalue

/-- What GET reports of a table of valid values passes every check. -/
theorem page_accepted (table : Table services) :
    ∀ item ∈ page builtins env table.rows, ¬ Fails services env item := by
  intro item hitem
  rw [page_eq] at hitem
  obtain ⟨⟨key, info⟩, hentry, rfl⟩ := List.mem_map.mp hitem
  rintro ⟨hskip, hcheck⟩
  apply hcheck
  have henv : envText env info = none := by
    rw [skipped_eq hentry] at hskip
    exact Option.isSome_eq_false_iff.mp hskip |> Option.isNone_iff_eq_none.mp
  rw [checkValue]
  split
  · rfl
  · cases hkey : (settingValidators services).lookup key with
    | none => exact validate_unchecked hkey _
    | some validator => exact (checked_entry hentry hkey).page henv (table.valid key)

end Checks

/-! ## After a save -/

section Saved

variable {builtins : Builtins} {services : Services} {env : String → Option String} (table : Table services)
variable {key : String} {info : Meta}

theorem saved_eq : saved builtins services env table.rows =
    writeAll Prod.fst (putRow builtins env) table.rows (page builtins env table.rows) := by
  rw [saved, updateSettings_accepted builtins (page_accepted table)]

theorem saved_entry (h : (key, info) ∈ settingsRegistry) :
    saved builtins services env table.rows key =
      putRow builtins env (key, (resolveSetting builtins env table.rows key info).value) (table.rows key) := by
  rw [saved_eq]
  exact writeAll_mem page_nodup (mem_page h) _

/-- A key that is no setting of the page. -/
theorem saved_other (h : key ∉ settingsRegistry.map Prod.fst) :
    saved builtins services env table.rows key = table.rows key := by
  rw [saved_eq]
  refine writeAll_other (fun item hitem heq => h ?_) _
  rw [page_eq] at hitem
  obtain ⟨entry, hentry, rfl⟩ := List.mem_map.mp hitem
  exact heq ▸ List.mem_map_of_mem hentry

/-- A key that the environment gives keeps its row. -/
theorem saved_env (h : (key, info) ∈ settingsRegistry) {s : String} (henv : envText env info = some s) :
    saved builtins services env table.rows key = table.rows key := by
  rw [saved_entry table h, putRow]
  exact if_pos (by rw [skipped_eq h, henv]; rfl)

theorem saved_written (h : (key, info) ∈ settingsRegistry) (henv : envText env info = none) :
    saved builtins services env table.rows key =
      written builtins key (resolveSetting builtins env table.rows key info).value (table.rows key) := by
  rw [saved_entry table h, putRow]
  exact if_neg (by rw [skipped_eq h, henv]; exact Bool.false_ne_true)

/-- Any other key holds the value it was reported with. -/
theorem saved_value (h : (key, info) ∈ settingsRegistry) (henv : envText env info = none)
    (hmask : info.maskAlways = false) :
    saved builtins services env table.rows key =
      some (reported key (resolveSettingValue builtins env table.rows key info).1) := by
  have hreported := reported_reported key (resolveSettingValue builtins env table.rows key info).1
  rw [saved_written table h henv, reported_unmasked henv hmask]
  rw [written_value hmask h (by rw [hreported]; exact clears_reported h), hreported]

/-- The text that is shown of a secret. -/
def maskText (builtins : Builtins) (s : String) : String :=
  if s = "" then "" else maskSensitiveValue builtins (.str s)

theorem token_reported {rows : Rows} (henv : setIn env "HINDSIGHT_TOKEN" = none) :
    (resolveSetting builtins env rows "hindsight_token" hindsightToken).value =
      .str (maskText builtins ((rows "hindsight_token").elim "" (text builtins))) := by
  have hresolved : (resolveSettingValue builtins env rows "hindsight_token" hindsightToken).1 =
      .str ((raw env rows "hindsight_token" hindsightToken).elim "" (text builtins)) := resolve_text rfl
  have hraw : raw env rows "hindsight_token" hindsightToken = rows "hindsight_token" := by
    show ((setIn env "HINDSIGHT_TOKEN").map Json.str).or _ = _
    rw [henv]
    rfl
  rw [hraw] at hresolved
  rw [resolveSetting]
  rcases hvalue : resolveSettingValue builtins env rows "hindsight_token" hindsightToken with ⟨value, source⟩
  rw [hvalue] at hresolved
  have hresolved : value = _ := hresolved
  subst hresolved
  generalize (rows "hindsight_token").elim "" (text builtins) = s
  show (if hindsightToken.sensitive = true ∧ (Json.str s).truthy = true ∧ (source = .env ∨ hindsightToken.maskAlways =
    true) then Json.str (maskSensitiveValue builtins (.str s)) else .str s) = _
  rw [maskText]
  by_cases hs : s = ""
  · subst hs
    rw [if_neg (by rintro ⟨-, h, -⟩; cases h), if_pos rfl]
  · have htrue : (Json.str s).truthy = true := by
      simpa [Json.truthy] using hs
    rw [if_pos ⟨rfl, htrue, .inr rfl⟩, if_neg hs]

theorem token_mem : ("hindsight_token", hindsightToken) ∈ settingsRegistry := mem_registry rfl

/-- The token's row keeps its text; a value that is no text is replaced by the mask of its text. -/
theorem saved_token (henv : setIn env "HINDSIGHT_TOKEN" = none) :
    saved builtins services env table.rows "hindsight_token" =
      match table.rows "hindsight_token" with
      | some (.str s) => some (.str s)
      | row => some (.str (maskText builtins (row.elim "" (text builtins)))) := by
  have hwrite : ∀ (s : String) (row : Option Json), isMask builtins "hindsight_token" (.str s) row = false →
      written builtins "hindsight_token" (.str s) row = some (.str s) := by
    intro s row hno
    rw [written, hno]
    rfl
  rw [saved_written table token_mem henv, token_reported henv]
  cases hrow : table.rows "hindsight_token" with
  | none => exact hwrite _ _ rfl
  | some value =>
    cases value with
    | str s =>
      show written builtins "hindsight_token" (.str (maskText builtins s)) (some (.str s)) = some (.str s)
      by_cases hs : s = ""
      · subst hs
        exact hwrite _ _ rfl
      · have hmask : isMask builtins "hindsight_token" (.str (maskText builtins s)) (some (.str s)) = true := by
          show (s != "" && maskText builtins s == maskSensitiveValue builtins (.str s)) = true
          rw [maskText, if_neg hs, bne_iff_ne.mpr hs, beq_self_eq_true]
          rfl
        rw [written, hmask, if_pos rfl]
    | _ => exact hwrite _ _ rfl

theorem mask_eq {s : String} (hs : s ≠ "") :
    maskSensitiveValue builtins (.str s) =
      if s.length ≤ 4 then "****" else String.ofList (s.toList.take 4) ++ "****" := by
  have htrue : (Json.str s).truthy = true := by
    simpa [Json.truthy] using hs
  show (if (Json.str s).truthy = false ∨ s.length ≤ 4 then _ else _) = _
  rw [htrue]
  simp only [Bool.true_eq_false, false_or]

/-- A mask is its own mask. -/
theorem mask_mask (s : String) : maskText builtins (maskText builtins s) = maskText builtins s := by
  by_cases hs : s = ""
  · rw [maskText, maskText, if_pos hs, if_pos rfl]
  · have hmask : maskText builtins s = maskSensitiveValue builtins (.str s) := if_neg hs
    rw [hmask, mask_eq hs]
    split
    · rw [maskText, if_neg (by decide), mask_eq (by decide)]
      rfl
    · rename_i hlength
      have hlist : (String.ofList (s.toList.take 4) ++ "****").toList = s.toList.take 4 ++ "****".toList := by
        rw [String.toList_append, String.toList_ofList]
      have htake : (s.toList.take 4).length = 4 := by
        rw [List.length_take, String.length_toList]
        omega
      have hlong : (String.ofList (s.toList.take 4) ++ "****").length = 8 := by
        rw [← String.length_toList, hlist, List.length_append, htake]
        rfl
      have hne : String.ofList (s.toList.take 4) ++ "****" ≠ "" := by
        intro heq
        rw [heq] at hlong
        cases hlong
      rw [maskText, if_neg hne, mask_eq hne, hlong, if_neg (by decide), hlist]
      rw [List.take_append_of_le_length (by omega), List.take_take]
      rfl

theorem coerce_reported {rows : Rows} (h : (key, info) ∈ settingsRegistry) :
    coerce builtins (reported key (resolveSettingValue builtins env rows key info).1) info.default =
      some (reported key (resolveSettingValue builtins env rows key info).1) := by
  have hplain : coerce builtins (resolveSettingValue builtins env rows key info).1 info.default = some _ :=
    coerce_resolved key info
  rw [reported]
  split
  · rename_i hkey
    have hdefault := registry_models _ h hkey
    cases hobj : info.default with
    | obj fields =>
      rw [hobj] at hplain
      obtain ⟨other, hother⟩ := coerce_obj hplain
      obtain ⟨fields, hfields⟩ := normalize_obj other
      rw [hother, hfields]
      rfl
    | _ =>
      rw [hobj] at hdefault
      cases hdefault
  · exact hplain

theorem saved_reported (h : (key, info) ∈ settingsRegistry) :
    (resolveSetting builtins env (saved builtins services env table.rows) key info).value =
      (resolveSetting builtins env table.rows key info).value := by
  have hcongr : (envText env info = none →
      saved builtins services env table.rows key = table.rows key) →
      (resolveSetting builtins env (saved builtins services env table.rows) key info).value =
        (resolveSetting builtins env table.rows key info).value := by
    intro hrow
    unfold resolveSetting
    rw [resolve_congr hrow]
  cases henv : envText env info with
  | some s => exact hcongr fun hnone => absurd (henv.symm.trans hnone) nofun
  | none =>
    cases hmask : info.maskAlways with
    | false =>
      have hrow : saved builtins services env table.rows key = _ := saved_value table h henv hmask
      have htype : coerce builtins (reported key (resolveSettingValue builtins env table.rows key info).1)
          info.default = _ := coerce_reported h
      rw [reported_unmasked henv hmask, reported_unmasked henv hmask, resolve_stored henv hrow htype]
      exact reported_reported _ _
    | true =>
      have hkey : key = "hindsight_token" := registry_masked _ h hmask
      subst hkey
      cases lookup_registry h
      have hrow : saved builtins services env table.rows "hindsight_token" = _ := saved_token table henv
      have hshown : (resolveSetting builtins env (saved builtins services env table.rows) "hindsight_token"
          hindsightToken).value = _ := token_reported henv
      rw [hshown, token_reported henv, hrow]
      cases table.rows "hindsight_token" with
      | none => exact congrArg Json.str (mask_mask "")
      | some value =>
        cases value with
        | str s => rfl
        | _ => exact congrArg Json.str (mask_mask (builtins.str _))

/-- GET reports after a save of the page what it reported before. -/
theorem page_saved : page builtins env (saved builtins services env table.rows) = page builtins env table.rows := by
  rw [page_eq, page_eq]
  exact List.map_congr_left fun entry hentry => congrArg (Prod.mk entry.1) (saved_reported table hentry)

end Saved

end Errand.Server.SavedPage

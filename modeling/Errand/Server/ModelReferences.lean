import Errand.Server.ModelSettings

/-
  Errand.Server.ModelReferences — what still names a provider when it has been removed: by
  the delete route, by a scan of the environment, or by a scan for local runtimes.

  The settings that name a model are those of `MODEL_SETTING_KEYS`; a task profile may name
  one of its own. Clearing looks at three of the four keys and at no profile, and compares
  texts, where those who use a setting read its text as an id.

  Proved:
  - `undangling_iff`: nothing names a removed provider any more exactly if, before, no
    profile and no setting named it but in one of the three keys in the form ids are written
    in, or in a role that the scan sets anew.
  - `a_compaction_model_dangles`: a provider that compacts is deleted.
-/

namespace Errand.Server.ModelReferences

open Errand.Lib Errand.Server.Providers Errand.Server.ModelSettings
open Errand.Server.SettingsRegistry (modelSettingKeys noModel)

/-- The value names the provider: its `provider_id` is a text that is read as the id. -/
def Names (ids : Ids) (id : Nat) (value : Json) : Prop :=
  ∃ text, value.get? "provider_id" = some (.str text) ∧ ids.read text = some id

/-- A setting or a profile names the provider. -/
structure Undangling (ids : Ids) (t : Tables) (id : Nat) : Prop where
  settings : ∀ key ∈ modelSettingKeys, ∀ value, t.settings key = some value → ¬ Names ids id value
  profiles : ∀ profile ∈ t.profiles, ∀ value, profile.model = some value → ¬ Names ids id value

inductive Operation where
  | delete (id : Nat)
  | scanEnv (vars : List EnvVars) (o : Outside)
  | scanLocal (o : Outside)

section Open

variable (ids : Ids) (models : Provider → Option (List String)) (cipher : Cipher)

def perform (t : Tables) : Operation → Tables
  | .delete id => (ModelSettings.deleteProvider ids t id).2
  | .scanEnv vars o => ModelSettings.scanEnvProviders ids cipher t vars o
  | .scanLocal o => (scanLocal ids models cipher t o).2

/-- The provider is one the operation removes. -/
def Removes (t : Tables) (p : Provider) : Operation → Prop
  | .delete id => p.id = id ∧ p.source ≠ .env ∧ p.isDefault = false
  | .scanEnv vars _ => staleEnv vars p = true
  | .scanLocal o => ∃ gateway, localGateway o = some gateway ∧ departed cipher t.providers o gateway p = true

/-- The operation sets the role anew. -/
def Sets (t : Tables) (key : String) : Operation → Prop
  | .scanLocal o => key ∈ roleSettings ∧ localGateway o ≠ none ∧ Establishes models cipher t o
  | _ => False

/-- What names a provider that is removed is found by the clearing, or overwritten. -/
structure Covered (t : Tables) (op : Operation) (id : Nat) : Prop where
  settings : ∀ key ∈ modelSettingKeys, ∀ value, t.settings key = some value → Names ids id value →
    (key ∈ clearedKeys ∧ refersTo ids id value = true) ∨ Sets models cipher t key op
  profiles : ∀ profile ∈ t.profiles, ∀ value, profile.model = some value → ¬ Names ids id value

/-! ## What an operation does -/

/-- The removed providers, and the settings after they have been cleared. -/
structure Effect (t : Tables) (op : Operation) (removed : List Nat) : Prop where
  gone : ∀ p ∈ t.providers, Gone (perform ids models cipher t op).providers p.id ↔ Removes cipher t p op
  removed_iff : ∀ id, id ∈ removed ↔ ∃ p ∈ t.providers, Removes cipher t p op ∧ p.id = id
  profiles : (perform ids models cipher t op).profiles = t.profiles
  cleared : ∀ key, ¬ Sets models cipher t key op →
    (perform ids models cipher t op).settings key = clearAll ids t.settings removed key
  set : ∀ key, Sets models cipher t key op → ∃ p ∈ (perform ids models cipher t op).providers, ∃ model,
    (perform ids models cipher t op).settings key = some (selectionOf ids p.id model)

variable {ids models cipher} {t : Tables}

/-- A request to delete goes through, or changes nothing. -/
theorem delete_cases (rows : List Provider) (id : Nat) :
    (∃ p ∈ rows, (p.id = id ∧ p.source ≠ .env ∧ p.isDefault = false) ∧
        Providers.deleteProvider rows id = (.noContent, rows.filter (·.id ≠ id))) ∨
      ((Providers.deleteProvider rows id).1 ≠ .noContent ∧ (Providers.deleteProvider rows id).2 = rows ∧
        (withId rows id = none ∨ ∃ p ∈ rows, p.id = id ∧ (p.source = .env ∨ p.isDefault = true))) := by
  unfold Providers.deleteProvider
  cases hp : withId rows id with
  | none => exact .inr ⟨nofun, rfl, .inl rfl⟩
  | some p =>
    obtain ⟨hmem, hid⟩ := withId_some hp
    dsimp only
    by_cases henv : p.source = .env
    · rw [if_pos henv]
      exact .inr ⟨nofun, rfl, .inr ⟨p, hmem, hid, .inl henv⟩⟩
    · rw [if_neg henv]
      by_cases hdefault : p.isDefault = true
      · rw [if_pos hdefault]
        exact .inr ⟨nofun, rfl, .inr ⟨p, hmem, hid, .inr hdefault⟩⟩
      · rw [if_neg hdefault]
        exact .inl ⟨p, hmem, ⟨hid, henv, by simpa using hdefault⟩, rfl⟩

theorem delete_effect (id : Nat) : ∃ removed, Effect ids models cipher t (.delete id) removed := by
  rcases delete_cases t.providers id with ⟨p, hp, hremoved, heq⟩ | ⟨hreply, hrows, hnot⟩
  · have hid : ∀ q ∈ t.providers, q.id = id → q = p := by
      intro q hq h
      exact eq_of_key t.keyed.ids hq hp (h.trans hremoved.1.symm)
    refine ⟨[id], ?_, ?_, rfl, ?_, fun _ h => h.elim⟩
    · intro q hq
      have hrows : (perform ids models cipher t (.delete id)).providers = t.providers.filter (·.id ≠ id) :=
        congrArg Prod.snd heq
      rw [hrows]
      constructor
      · intro hgone
        have hqid : q.id = id := by
          by_contra hne
          exact hgone q (List.mem_filter.mpr ⟨hq, by simpa using hne⟩) rfl
        rw [hid q hq hqid]
        exact hremoved
      · rintro ⟨hqid, -⟩ r hr
        rw [hqid]
        simpa using (List.mem_filter.mp hr).2
    · intro i
      rw [List.mem_singleton]
      constructor
      · rintro rfl
        exact ⟨p, hp, hremoved, hremoved.1⟩
      · rintro ⟨q, -, hq, rfl⟩
        exact hq.1
    · intro key _
      change (if (Providers.deleteProvider t.providers id).1 = .noContent then clearModelSettings ids t.settings id
        else t.settings) key = _
      rw [heq, if_pos rfl]
      rfl
  · have hnone : ∀ q ∈ t.providers, ¬ Removes cipher t q (.delete id) := by
      rintro q hq ⟨hqid, henv, hdefault⟩
      rcases hnot with hnone | ⟨p, hp, hid, hrefused⟩
      · exact absurd hqid (by simpa [withId] using List.find?_eq_none.mp hnone q hq)
      · obtain rfl := eq_of_key t.keyed.ids hq hp (hqid.trans hid.symm)
        rcases hrefused with h | h
        · exact henv h
        · rw [h] at hdefault
          cases hdefault
    refine ⟨[], ?_, ?_, rfl, ?_, fun _ h => h.elim⟩
    · intro q hq
      have hrows' : (perform ids models cipher t (.delete id)).providers = t.providers := hrows
      rw [hrows']
      exact iff_of_false (fun hgone => hgone q hq rfl) (hnone q hq)
    · intro i
      refine iff_of_false (by simp) ?_
      rintro ⟨q, hq, hremoves, -⟩
      exact hnone q hq hremoves
    · intro key _
      change (if (Providers.deleteProvider t.providers id).1 = .noContent then clearModelSettings ids t.settings id
        else t.settings) key = _
      rw [if_neg hreply]
      rfl

theorem scanEnv_effect (vars : List EnvVars) (o : Outside) :
    Effect ids models cipher t (.scanEnv vars o)
      (((upsertedEnv cipher t.providers vars o).filter (staleEnv vars)).map Provider.id) where
  gone _ hp := gone_scanEnv t.keyed hp
  removed_iff _ := stale_iff
  profiles := rfl
  cleared _ _ := rfl
  set _ h := h.elim

theorem scanLocal_effect (o : Outside) : ∃ removed, Effect ids models cipher t (.scanLocal o) removed := by
  cases hg : localGateway o with
  | none =>
    have hsame : perform ids models cipher t (.scanLocal o) = t := by
      simp only [perform, scanLocal, hg]
    have hnone : ∀ q, ¬ Removes cipher t q (.scanLocal o) := by
      rintro q ⟨gateway, hgateway, -⟩
      rw [hg] at hgateway
      cases hgateway
    refine ⟨[], ?_, ?_, ?_, ?_, ?_⟩
    · intro q hq
      rw [hsame]
      exact iff_of_false (fun hgone => hgone q hq rfl) (hnone q)
    · intro i
      refine iff_of_false (by simp) ?_
      rintro ⟨q, -, hremoves, -⟩
      exact hnone q hremoves
    · rw [hsame]
    · intro key _
      rw [hsame]
      rfl
    · intro key h
      exact absurd hg h.2.1
  | some gateway =>
    have hproviders : (perform ids models cipher t (.scanLocal o)).providers =
        (scanLocalAi cipher t.providers o).2 := by
      simp only [perform, scanLocal, hg]
    have hsettings : (perform ids models cipher t (.scanLocal o)).settings =
        (established ids models cipher t o gateway).2 := by
      simp only [perform, scanLocal, hg]
    have hremoves : ∀ q, Removes cipher t q (.scanLocal o) ↔ departed cipher t.providers o gateway q = true := by
      intro q
      constructor
      · rintro ⟨other, hother, hdeparted⟩
        obtain rfl := Option.some.inj (hg.symm.trans hother)
        exact hdeparted
      · intro hdeparted
        exact ⟨gateway, hg, hdeparted⟩
    refine ⟨((registering cipher t.providers o gateway).rows.filter (departed cipher t.providers o gateway)).map
      Provider.id, ?_, ?_, ?_, ?_, ?_⟩
    · intro q hq
      rw [hproviders, hremoves]
      exact gone_scanLocal t.keyed hg hq
    · intro i
      rw [departed_iff t.keyed]
      simp only [hremoves]
    · simp only [perform, scanLocal, hg]
    · intro key hnot
      rw [hsettings]
      by_cases hest : Establishes models cipher t o
      · obtain ⟨p, model, -, -, heq⟩ := established_of ids gateway hest
        rw [heq]
        refine if_neg fun hkey => hnot ⟨List.contains_iff_mem.mp hkey, ?_, hest⟩
        rw [hg]
        nofun
      · rw [established_not ids gateway hest]
        rfl
    · rintro key ⟨hkey, -, hest⟩
      obtain ⟨p, model, hp, -, heq⟩ := established_of ids gateway hest
      refine ⟨p, ?_, model, ?_⟩
      · rw [hproviders]
        exact registeredProvider_mem hp
      · rw [hsettings, heq]
        exact if_pos (List.contains_iff_mem.mpr hkey)

theorem perform_effect (ids : Ids) (models : Provider → Option (List String)) (cipher : Cipher) (t : Tables)
    (op : Operation) : ∃ removed, Effect ids models cipher t op removed := by
  cases op with
  | delete id => exact delete_effect id
  | scanEnv vars o => exact ⟨_, scanEnv_effect vars o⟩
  | scanLocal o => exact scanLocal_effect o

/-! ## What still names a removed provider -/

theorem names_of_refersTo {id : Nat} {value : Json} (h : refersTo ids id value = true) : Names ids id value :=
  ⟨ids.text id, refersTo_iff.mp h, ids.read_text id⟩

theorem names_selectionOf {id p : Nat} {model : String} (h : Names ids id (selectionOf ids p model)) : id = p := by
  obtain ⟨text, htext, hread⟩ := h
  obtain rfl : ids.text p = text := Json.str.inj (Option.some.inj htext)
  exact (Option.some.inj ((ids.read_text p).symm.trans hread)).symm

/-- A text names one id. -/
theorem Names.unique {a b : Nat} {value : Json} (ha : Names ids a value) (hb : Names ids b value) : a = b := by
  obtain ⟨text, htext, hread⟩ := ha
  obtain ⟨text', htext', hread'⟩ := hb
  obtain rfl := Json.str.inj (Option.some.inj (htext.symm.trans htext'))
  exact Option.some.inj (hread.symm.trans hread')

theorem not_names_noModel (id : Nat) : ¬ Names ids id noModel := by
  rintro ⟨text, htext, -⟩
  cases Option.some.inj htext

theorem undangling_of_covered {op : Operation} {removed : List Nat} (h : Effect ids models cipher t op removed)
    {p : Provider} (hp : p ∈ t.providers) (hremoves : Removes cipher t p op)
    (hcovered : Covered ids models cipher t op p.id) : Undangling ids (perform ids models cipher t op) p.id := by
  constructor
  · intro key hkey value hvalue hnames
    by_cases hset : Sets models cipher t key op
    · obtain ⟨q, hq, model, heq⟩ := h.set key hset
      obtain rfl := Option.some.inj (hvalue.symm.trans heq)
      exact (h.gone p hp).mpr hremoves q hq (names_selectionOf hnames).symm
    · rw [h.cleared key hset, clearAll_eq] at hvalue
      split at hvalue
      · obtain rfl := Option.some.inj hvalue
        exact not_names_noModel p.id hnames
      · rename_i hkept
        refine hkept ?_
        rcases hcovered.settings key hkey value hvalue hnames with ⟨hcleared, hrefers⟩ | hset'
        · have hremoved : p.id ∈ removed := (h.removed_iff p.id).mpr ⟨p, hp, hremoves, rfl⟩
          rw [hvalue, Option.any_some, List.contains_iff_mem.mpr hcleared, Bool.true_and]
          exact List.any_eq_true.mpr ⟨p.id, hremoved, hrefers⟩
        · exact absurd hset' hset
  · rw [h.profiles]
    exact hcovered.profiles

theorem covered_of_undangling {op : Operation} {removed : List Nat} (h : Effect ids models cipher t op removed)
    {p : Provider} (hundangling : Undangling ids (perform ids models cipher t op) p.id) :
    Covered ids models cipher t op p.id := by
  constructor
  · intro key hkey value hvalue hnames
    by_cases hset : Sets models cipher t key op
    · exact .inr hset
    · have hnot := hundangling.settings key hkey
      rw [h.cleared key hset, clearAll_eq, hvalue] at hnot
      split at hnot
      · rename_i hclears
        obtain ⟨hcleared, hany⟩ := Bool.and_eq_true_iff.mp hclears
        obtain ⟨id, -, hrefers⟩ := List.any_eq_true.mp (by simpa using hany)
        rw [← (names_of_refersTo hrefers).unique hnames]
        exact .inl ⟨List.contains_iff_mem.mp hcleared, hrefers⟩
      · exact absurd hnames (hnot value rfl)
  · rw [← h.profiles]
    exact hundangling.profiles

/-- Nothing names a provider that an operation has removed exactly if it is covered. -/
theorem undangling_iff (ids : Ids) (models : Provider → Option (List String)) (cipher : Cipher) (t : Tables)
    (op : Operation) :
    (∀ p ∈ t.providers, Gone (perform ids models cipher t op).providers p.id →
        Undangling ids (perform ids models cipher t op) p.id) ↔
      ∀ p ∈ t.providers, Removes cipher t p op → Covered ids models cipher t op p.id := by
  obtain ⟨removed, h⟩ := perform_effect ids models cipher t op
  constructor
  · intro hall p hp hremoves
    exact covered_of_undangling h (hall p hp ((h.gone p hp).mpr hremoves))
  · intro hall p hp hgone
    have hremoves := (h.gone p hp).mp hgone
    exact undangling_of_covered h hp hremoves (hall p hp hremoves)

end Open

/-! ## A provider that compacts -/

def firstUuid : String := "00000000-0000-0000-0000-000000000001"

/-- The first id as it is written; others differ from it. -/
def sampleIds : Ids where
  text id := if id = 1 then firstUuid else String.ofList (List.replicate id 'x')
  read text := if text = firstUuid then some 1 else some text.length
  read_text := by
    intro id
    by_cases hid : id = 1
    · simp [hid]
    · have hne : String.ofList (List.replicate id 'x') ≠ firstUuid := by
        intro h
        have hlist := congrArg String.toList h
        rw [String.toList_ofList] at hlist
        cases id with
        | zero => exact absurd hlist (by decide)
        | succ n => exact absurd (List.cons.inj hlist).1 (by decide)
      rw [if_neg hid, if_neg hne]
      simp

def small : Provider := ⟨1, "small", "http://small", "sk", .openaiCompatible, false, .database, 1⟩

/-- A provider added by hand, beside the default. -/
def compacting : Tables where
  providers := [⟨0, "litellm", "http://litellm", "sk", .litellm, true, .database, 0⟩, small]
  settings key := if key = "compaction_model" then some (selectionOf sampleIds 1 "tiny") else none
  profiles := []
  keyed := by constructor <;> decide

/-- Deleting it leaves the compaction model naming it. -/
theorem a_compaction_model_dangles :
    ¬ ∀ p ∈ compacting.providers, Gone (perform sampleIds (fun _ => none) plain compacting (.delete 1)).providers p.id →
      Undangling sampleIds (perform sampleIds (fun _ => none) plain compacting (.delete 1)) p.id := by
  intro h
  have hgone : Gone (perform sampleIds (fun _ => none) plain compacting (.delete 1)).providers 1 := by
    intro q hq
    have hleft : q = ⟨0, "litellm", "http://litellm", "sk", .litellm, true, .database, 0⟩ := List.mem_singleton.mp hq
    rw [hleft]
    decide
  have hundangling := h small (by simp [compacting]) hgone
  exact hundangling.settings "compaction_model" (by decide) (selectionOf sampleIds 1 "tiny") rfl
    ⟨firstUuid, rfl, sampleIds.read_text 1⟩

end Errand.Server.ModelReferences

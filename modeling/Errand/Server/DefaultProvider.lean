import Errand.Lib.Flagged
import Errand.Lib.Machine
import Errand.Server.Providers

/-
  Errand.Server.DefaultProvider — which operations leave the table of providers with one
  default.

  The routes always do: only the first provider is made the default, the default is not
  deleted, and setting one takes the flag from the others. The scans need not. A scan of the
  environment takes the default away with the variables that named it, and of two indices
  of one name the later clears the flag of the first (`oneDefault_scanEnv`); a scan for
  local runtimes takes it away with the runtime (`oneDefault_scanLocal`).

  Proved:
  - `perform_keyed`: names and ids stay unique.
  - `one_default_iff`: a table that starts empty has one default all along a run exactly if
    no scan of the run takes the default away and leaves other providers.
-/

namespace Errand.Server.Providers

open Errand.Lib

structure Keyed (rows : List Provider) : Prop where
  ids : (rows.map Provider.id).Nodup
  names : (rows.map Provider.name).Nodup

/-- If there is a provider, exactly one is the default. -/
def OneDefault (rows : List Provider) : Prop := OneFlagged Provider.isDefault rows

instance (rows : List Provider) : Decidable (OneDefault rows) := by unfold OneDefault; infer_instance

theorem Keyed.nodup {rows : List Provider} (h : Keyed rows) : rows.Nodup := h.ids.of_map _

theorem Keyed.filter {rows : List Provider} (h : Keyed rows) (q : Provider → Bool) : Keyed (rows.filter q) :=
  ⟨(List.filter_sublist.map _).nodup h.ids, (List.filter_sublist.map _).nodup h.names⟩

theorem Keyed.map {rows : List Provider} (h : Keyed rows) {f : Provider → Provider}
    (hid : ∀ p ∈ rows, (f p).id = p.id) (hname : ∀ p ∈ rows, (f p).name = p.name) : Keyed (rows.map f) :=
  ⟨(nodup_update hid).mpr h.ids, (nodup_update hname).mpr h.names⟩

theorem named_eq_none {rows : List Provider} {name : String} : named rows name = none ↔ ∀ p ∈ rows, p.name ≠ name := by
  simp [named]

theorem newId_fresh (o : Outside) (rows : List Provider) : ∀ p ∈ rows, p.id ≠ newId o rows := by
  intro p hp h
  have hmem : p.id ∈ rows.map Provider.id := List.mem_map_of_mem hp
  rw [h] at hmem
  exact o.uuid4.fresh _ hmem

theorem Keyed.append {rows : List Provider} (h : Keyed rows) {o : Outside} {p : Provider} (hid : p.id = newId o rows)
    (hname : named rows p.name = none) : Keyed (rows ++ [p]) := by
  constructor
  · refine nodup_append h.ids ?_
    rw [hid]
    exact newId_fresh o rows
  · exact nodup_append h.names (named_eq_none.mp hname)

/-! ## The routes -/

/-- No change, or one new row that is the default if it is the first. -/
def Inserts (o : Outside) (rows rows' : List Provider) : Prop :=
  rows' = rows ∨
    ∃ p : Provider, rows' = rows ++ [p] ∧ p.id = newId o rows ∧ named rows p.name = none ∧
      p.isDefault = decide (rows.length = 0)

theorem Inserts.keyed {o : Outside} {rows rows' : List Provider} (h : Inserts o rows rows') (hk : Keyed rows) :
    Keyed rows' := by
  rcases h with rfl | ⟨p, rfl, hid, hname, -⟩
  · exact hk
  · exact hk.append hid hname

theorem Inserts.oneDefault {o : Outside} {rows rows' : List Provider} (h : Inserts o rows rows')
    (hone : OneDefault rows) : OneDefault rows' := by
  rcases h with rfl | ⟨p, rfl, -, -, hdefault⟩
  · exact hone
  · cases rows with
    | nil =>
      have hp : p.isDefault = true := hdefault
      simp [OneDefault, OneFlagged, hp]
    | cons q rows =>
      refine hone.append (by simp) ?_
      intro r hr
      rw [List.mem_singleton] at hr
      rw [hr, hdefault]
      rfl

section Open

variable {cipher : Cipher} {catalog : List CatalogEntry} {repr : String → String}

theorem createProvider_inserts (rows : List Provider) (body : ProviderCreate) (o : Outside) :
    Inserts o rows (createProvider cipher catalog rows body o).2 := by
  unfold createProvider
  split
  · exact .inl rfl
  · split
    · exact .inl rfl
    · split
      · exact .inl rfl
      · rename_i h
        exact .inr ⟨_, rfl, rfl, by simpa using h, rfl⟩

theorem adoptLocalRuntime_inserts (rows : List Provider) (baseUrl apiKey : String) (name : Option String) (o : Outside) :
    Inserts o rows (adoptLocalRuntime cipher repr rows baseUrl apiKey name o).2 := by
  unfold adoptLocalRuntime
  dsimp only
  split
  · exact .inl rfl
  · split
    · exact .inl rfl
    · split
      · exact .inl rfl
      · exact .inl rfl
      · exact .inl rfl
      · rename_i items _
        generalize (if blank name = true then identifyRuntime items (portOf (canonicalBaseUrl baseUrl))
          else name.getD "") = resolved
        split
        · exact .inl rfl
        · rename_i h
          exact .inr ⟨_, rfl, rfl, by simpa using h, rfl⟩

theorem apply_id (body : ProviderUpdate) (o : Outside) (p : Provider) : (body.apply cipher o p).id = p.id := rfl

/-- An update changes one row, and gives it no name another has. -/
theorem updateProvider_rows (cipher : Cipher) (rows : List Provider) (id : Nat) (body : ProviderUpdate) (o : Outside) :
    (updateProvider cipher rows id body o).2 = rows ∨
      ((updateProvider cipher rows id body o).2 = rows.map fun q => if q.id = id then body.apply cipher o q else q) ∧
        ∀ q ∈ rows, body.name = some q.name → q.id = id := by
  unfold updateProvider
  split
  · exact .inl rfl
  · split
    · exact .inl rfl
    · split
      · exact .inl rfl
      · split
        · exact .inl rfl
        · rename_i h
          refine .inr ⟨rfl, ?_⟩
          intro q hq hname
          by_contra hne
          exact h (List.any_eq_true.mpr ⟨q, hq, by simp [hname, hne]⟩)

theorem updateProvider_keyed {rows : List Provider} (h : Keyed rows) (id : Nat) (body : ProviderUpdate) (o : Outside) :
    Keyed (updateProvider cipher rows id body o).2 := by
  rcases updateProvider_rows cipher rows id body o with heq | ⟨heq, hfree⟩
  · rw [heq]
    exact h
  · rw [heq]
    constructor
    · refine (nodup_update ?_).mpr h.ids
      intro q _
      by_cases hq : q.id = id <;> simp [hq, apply_id]
    · refine nodup_rekey id h.ids h.names ?_ ?_
      · intro q _ hq
        rw [if_neg hq]
      · intro r hr hrid s hs hsid hname
        rw [if_pos hrid] at hname
        have hnew : (body.apply cipher o r).name = body.name.getD r.name := rfl
        rw [hnew] at hname
        cases hb : body.name with
        | none =>
          rw [hb] at hname
          exact hsid (eq_of_key h.names hs hr hname ▸ hrid)
        | some name =>
          rw [hb] at hname
          exact hsid (hfree s hs (by rw [hb, hname]; rfl))

theorem updateProvider_oneDefault {rows : List Provider} (h : OneDefault rows) (id : Nat) (body : ProviderUpdate)
    (o : Outside) : OneDefault (updateProvider cipher rows id body o).2 := by
  rcases updateProvider_rows cipher rows id body o with heq | ⟨heq, -⟩
  · rw [heq]
    exact h
  · rw [heq]
    refine (oneFlagged_map ?_).mpr h
    intro q _
    by_cases hq : q.id = id
    · rw [if_pos hq]
      rfl
    · rw [if_neg hq]

theorem withId_some {rows : List Provider} {id : Nat} {p : Provider} (h : withId rows id = some p) :
    p ∈ rows ∧ p.id = id := by
  refine ⟨List.mem_of_find?_eq_some h, ?_⟩
  simpa using List.find?_some h

theorem deleteProvider_rows (rows : List Provider) (id : Nat) :
    (deleteProvider rows id).2 = rows ∨
      (deleteProvider rows id).2 = rows.filter (·.id ≠ id) ∧ ∃ p ∈ rows, p.id = id ∧ p.isDefault = false := by
  unfold deleteProvider
  split
  · exact .inl rfl
  · rename_i p hp
    obtain ⟨hmem, hid⟩ := withId_some hp
    split
    · exact .inl rfl
    · split
      · exact .inl rfl
      · rename_i hdefault
        exact .inr ⟨rfl, p, hmem, hid, by simpa using hdefault⟩

theorem deleteProvider_keyed {rows : List Provider} (h : Keyed rows) (id : Nat) : Keyed (deleteProvider rows id).2 := by
  rcases deleteProvider_rows rows id with heq | ⟨heq, -⟩
  · rw [heq]
    exact h
  · rw [heq]
    exact h.filter _

theorem deleteProvider_oneDefault {rows : List Provider} (hk : Keyed rows) (h : OneDefault rows) (id : Nat) :
    OneDefault (deleteProvider rows id).2 := by
  rcases deleteProvider_rows rows id with heq | ⟨heq, p, hp, hid, hdefault⟩
  · rw [heq]
    exact h
  · rw [heq]
    refine (h.filter_iff _).mpr (.inl ?_)
    intro r hr hflag
    rw [decide_eq_true_eq]
    intro hrid
    have hsame := eq_of_key hk.ids hr hp (hrid.trans hid.symm)
    rw [hsame, hdefault] at hflag
    cases hflag

theorem setDefaultProvider_rows (rows : List Provider) (id : Nat) :
    (setDefaultProvider rows id).2 = rows ∨
      ((setDefaultProvider rows id).2 = rows.map fun q => { q with isDefault := decide (q.id = id) }) ∧
        ∃ p ∈ rows, p.id = id := by
  unfold setDefaultProvider
  split
  · exact .inl rfl
  · rename_i p hp
    exact .inr ⟨rfl, p, withId_some hp⟩

theorem setDefaultProvider_keyed {rows : List Provider} (h : Keyed rows) (id : Nat) :
    Keyed (setDefaultProvider rows id).2 := by
  rcases setDefaultProvider_rows rows id with heq | ⟨heq, -⟩
  · rw [heq]
    exact h
  · rw [heq]
    exact h.map (fun _ _ => rfl) (fun _ _ => rfl)

theorem setDefaultProvider_oneDefault {rows : List Provider} (hk : Keyed rows) (h : OneDefault rows) (id : Nat) :
    OneDefault (setDefaultProvider rows id).2 := by
  have hkeyed := setDefaultProvider_keyed hk id
  rcases setDefaultProvider_rows rows id with heq | ⟨heq, p, hp, hid⟩
  · rw [heq]
    exact h
  · rw [heq] at hkeyed ⊢
    have hmem := List.mem_map_of_mem (f := fun q : Provider => { q with isDefault := decide (q.id = id) }) hp
    refine (oneFlagged_iff hkeyed.nodup (List.ne_nil_of_mem hmem)).mpr ⟨_, hmem, by simp [hid], ?_⟩
    intro s hs hflag
    refine eq_of_key hkeyed.ids hs hmem ?_
    obtain ⟨q, -, rfl⟩ := List.mem_map.mp hs
    exact (of_decide_eq_true hflag).trans hid.symm

/-! ## The environment -/

theorem upsertEnv_keyed {rows : List Provider} (h : Keyed rows) (o : Outside) (e : EnvProvider) (d : Bool) :
    Keyed (upsertEnv cipher o rows e d) := by
  unfold upsertEnv
  cases hn : named rows e.name with
  | none => exact h.append rfl hn
  | some q =>
    refine h.map ?_ ?_
    · intro p _
      by_cases hp : p.name = e.name <;> simp [hp]
    · intro p _
      by_cases hp : p.name = e.name <;> simp [hp]

theorem upsertEnv_mem {rows : List Provider} {o : Outside} {e : EnvProvider} {d : Bool} {q : Provider}
    (h : q ∈ upsertEnv cipher o rows e d) :
    (q.name = e.name ∧ q.isDefault = d ∧ q.source = .env) ∨ (q ∈ rows ∧ q.name ≠ e.name) := by
  unfold upsertEnv at h
  cases hn : named rows e.name with
  | none =>
    rw [hn] at h
    rcases List.mem_append.mp h with h | h
    · exact .inr ⟨h, named_eq_none.mp hn q h⟩
    · rw [List.mem_singleton] at h
      subst h
      exact .inl ⟨rfl, rfl, rfl⟩
  | some _ =>
    rw [hn] at h
    obtain ⟨p, hp, rfl⟩ := List.mem_map.mp h
    by_cases hname : p.name = e.name
    · rw [if_pos hname]
      exact .inl ⟨hname, rfl, rfl⟩
    · rw [if_neg hname]
      exact .inr ⟨hp, hname⟩

theorem upsertEnv_keeps {rows : List Provider} (o : Outside) {e : EnvProvider} (d : Bool) {p : Provider}
    (hp : p ∈ rows) (hname : p.name ≠ e.name) : p ∈ upsertEnv cipher o rows e d := by
  unfold upsertEnv
  cases named rows e.name with
  | none => exact List.mem_append_left _ hp
  | some _ => exact List.mem_map.mpr ⟨p, hp, if_neg hname⟩

theorem upsertEnv_has (cipher : Cipher) (rows : List Provider) (o : Outside) (e : EnvProvider) (d : Bool) :
    ∃ q ∈ upsertEnv cipher o rows e d, q.name = e.name := by
  unfold upsertEnv
  cases hn : named rows e.name with
  | none => exact ⟨_, List.mem_append_right _ (List.mem_singleton_self _), rfl⟩
  | some q =>
    have hname : q.name = e.name := by simpa using List.find?_some hn
    refine ⟨_, List.mem_map_of_mem (List.mem_of_find?_eq_some hn), ?_⟩
    rw [if_pos hname]
    exact hname

theorem upsertAll_keyed {rows : List Provider} (h : Keyed rows) (o : Outside) (index : Nat) (es : List EnvProvider) :
    Keyed (upsertAll cipher o rows index es) := by
  induction es generalizing rows index with
  | nil => exact h
  | cons e es ih => exact ih (upsertEnv_keyed h o e _) (index + 1)

/-- Past index 0 a provider of the environment is not the default. -/
theorem upsertAll_mem {rows : List Provider} {o : Outside} {index : Nat} {es : List EnvProvider} {q : Provider}
    (h : q ∈ upsertAll cipher o rows (index + 1) es) :
    (q.name ∈ es.map EnvProvider.name ∧ q.isDefault = false) ∨ (q ∈ rows ∧ q.name ∉ es.map EnvProvider.name) := by
  induction es generalizing rows index with
  | nil => exact .inr ⟨h, by simp⟩
  | cons e es ih =>
    rcases ih h with ⟨hname, hflag⟩ | ⟨hq, hname⟩
    · exact .inl ⟨List.mem_cons_of_mem _ hname, hflag⟩
    · rcases upsertEnv_mem hq with ⟨heq, hflag, -⟩ | ⟨hq, hne⟩
      · exact .inl ⟨by simp [heq], by simpa using hflag⟩
      · exact .inr ⟨hq, by simpa [hne] using hname⟩

theorem upsertAll_keeps (cipher : Cipher) {rows : List Provider} (o : Outside) (index : Nat) {es : List EnvProvider}
    {p : Provider} (hp : p ∈ rows) (hname : p.name ∉ es.map EnvProvider.name) : p ∈ upsertAll cipher o rows index es := by
  induction es generalizing rows index with
  | nil => exact hp
  | cons e es ih =>
    simp only [List.map_cons, List.mem_cons, not_or] at hname
    exact ih (index + 1) (upsertEnv_keeps o _ hp hname.1) hname.2

theorem upsertAll_named {rows : List Provider} (o : Outside) (index : Nat) (es : List EnvProvider) {name : String}
    (h : ∃ p ∈ rows, p.name = name) : ∃ q ∈ upsertAll cipher o rows index es, q.name = name := by
  induction es generalizing rows index with
  | nil => exact h
  | cons e es ih =>
    refine ih (index + 1) ?_
    obtain ⟨p, hp, rfl⟩ := h
    by_cases hname : p.name = e.name
    · rw [hname]
      exact upsertEnv_has cipher rows o e _
    · exact ⟨p, upsertEnv_keeps o _ hp hname, rfl⟩

/-- What a scan does to the flags when it has read the variables. -/
def clearDefaults (names : List String) (p : Provider) : Provider :=
  if p.isDefault ∧ (p.source ≠ .env ∨ p.name ∉ names) then { p with isDefault := false } else p

theorem clearDefaults_name (names : List String) (p : Provider) : (clearDefaults names p).name = p.name := by
  unfold clearDefaults
  split <;> rfl

theorem clearDefaults_id (names : List String) (p : Provider) : (clearDefaults names p).id = p.id := by
  unfold clearDefaults
  split <;> rfl

/-- The flag stays on a provider of the environment only. -/
theorem clearDefaults_default {names : List String} {p : Provider} (h : (clearDefaults names p).isDefault = true) :
    clearDefaults names p = p ∧ p.isDefault = true ∧ p.name ∈ names := by
  unfold clearDefaults at h ⊢
  split at h
  · cases h
  · rename_i hkeep
    rw [if_neg hkeep]
    refine ⟨rfl, h, ?_⟩
    by_contra hname
    exact hkeep ⟨h, .inr hname⟩

theorem scanEnv_nil {rows : List Provider} {vars : List EnvVars} {o : Outside} (h : envProviders vars = []) :
    scanEnvProviders cipher rows vars o = rows.filter fun p => decide (p.source ≠ .env) := by
  simp [scanEnvProviders, h, upsertAll]

theorem scanEnv_cons {rows : List Provider} {vars : List EnvVars} {o : Outside} {e : EnvProvider} {es : List EnvProvider}
    (h : envProviders vars = e :: es) :
    scanEnvProviders cipher rows vars o =
      ((upsertAll cipher o (upsertEnv cipher o rows e true) 1 es).map
        (clearDefaults ((e :: es).map EnvProvider.name))).filter
          fun p => decide (p.source ≠ .env ∨ p.name ∈ (e :: es).map EnvProvider.name) := by
  unfold scanEnvProviders
  rw [h]
  rfl

theorem scanEnv_keyed (cipher : Cipher) {rows : List Provider} (h : Keyed rows) (vars : List EnvVars) (o : Outside) :
    Keyed (scanEnvProviders cipher rows vars o) := by
  cases hes : envProviders vars with
  | nil =>
    rw [scanEnv_nil hes]
    exact h.filter _
  | cons e es =>
    rw [scanEnv_cons hes]
    refine Keyed.filter (Keyed.map (upsertAll_keyed (upsertEnv_keyed h o e true) o 1 es) ?_ ?_) _
    · exact fun p _ => clearDefaults_id _ p
    · exact fun p _ => clearDefaults_name _ p

/-- A default after a scan is the provider of index 0, and no later index has its name. -/
theorem scanEnv_default {rows : List Provider} {o : Outside} {e : EnvProvider} {es : List EnvProvider} {q : Provider}
    (hq : q ∈ (upsertAll cipher o (upsertEnv cipher o rows e true) 1 es).map
      (clearDefaults ((e :: es).map EnvProvider.name)))
    (hflag : q.isDefault = true) : q.name = e.name ∧ e.name ∉ es.map EnvProvider.name := by
  obtain ⟨p, hp, rfl⟩ := List.mem_map.mp hq
  obtain ⟨hsame, hflag, hname⟩ := clearDefaults_default hflag
  rw [hsame]
  rcases upsertAll_mem hp with ⟨-, hfalse⟩ | ⟨-, hlater⟩
  · rw [hfalse] at hflag
    cases hflag
  · have heq : p.name = e.name := by
      rcases List.mem_cons.mp hname with heq | hmem
      · exact heq
      · exact absurd hmem hlater
    rw [heq] at hlater
    exact ⟨heq, hlater⟩

/-- A scan that reads no variables keeps one default unless the default was the
    environment's and another provider is left; one that reads some exactly if no later
    index has the name of index 0. -/
theorem oneDefault_scanEnv {rows : List Provider} (hk : Keyed rows) (h : OneDefault rows) (vars : List EnvVars)
    (o : Outside) :
    OneDefault (scanEnvProviders cipher rows vars o) ↔
      match (envProviders vars).map EnvProvider.name with
      | [] => (∀ p ∈ rows, p.isDefault = true → p.source ≠ .env) ∨ ∀ p ∈ rows, p.source = .env
      | name :: names => name ∉ names := by
  have hkeyed := scanEnv_keyed cipher hk vars o
  cases hes : envProviders vars with
  | nil =>
    rw [scanEnv_nil hes]
    refine (h.filter_iff _).trans ?_
    simp
  | cons e es =>
    rw [scanEnv_cons hes] at hkeyed ⊢
    have hne : List.filter (fun p : Provider => decide (p.source ≠ .env ∨ p.name ∈ (e :: es).map EnvProvider.name))
        ((upsertAll cipher o (upsertEnv cipher o rows e true) 1 es).map
          (clearDefaults ((e :: es).map EnvProvider.name))) ≠ [] := by
      obtain ⟨q, hq, hname⟩ := upsertAll_named o 1 es (upsertEnv_has cipher rows o e true)
      refine List.ne_nil_of_mem (List.mem_filter.mpr ⟨List.mem_map_of_mem hq, ?_⟩)
      simp [clearDefaults_name, hname]
    constructor
    · intro hone
      obtain ⟨q, hq, hflag⟩ := OneFlagged.exists hone hne
      exact (scanEnv_default (List.mem_filter.mp hq).1 hflag).2
    · intro hlater
      obtain ⟨q, hq, hname⟩ := upsertEnv_has cipher rows o e true
      have hall := upsertAll_keeps cipher o 1 hq (by rw [hname]; exact hlater)
      have hstate : q.isDefault = true ∧ q.source = .env := by
        rcases upsertEnv_mem hq with ⟨-, hflag, hsource⟩ | ⟨-, hother⟩
        · exact ⟨hflag, hsource⟩
        · exact absurd hname hother
      have hsame : clearDefaults ((e :: es).map EnvProvider.name) q = q := by
        simp [clearDefaults, hstate.2, hname]
      have hmem := List.mem_map_of_mem (f := clearDefaults ((e :: es).map EnvProvider.name)) hall
      rw [hsame] at hmem
      have hmem : q ∈ List.filter (fun p : Provider => decide (p.source ≠ .env ∨ p.name ∈ (e :: es).map EnvProvider.name))
          ((upsertAll cipher o (upsertEnv cipher o rows e true) 1 es).map
            (clearDefaults ((e :: es).map EnvProvider.name))) :=
        List.mem_filter.mpr ⟨hmem, by simp [hname]⟩
      refine (oneFlagged_iff hkeyed.nodup hne).mpr ⟨q, hmem, hstate.1, ?_⟩
      intro s hs hflag
      refine eq_of_key hkeyed.names hs hmem ?_
      exact (scanEnv_default (List.mem_filter.mp hs).1 hflag).1.trans hname.symm

/-! ## Local runtimes -/

theorem rstripSlash_endpointUrl (gateway : String) (port : Nat) :
    rstripSlash (endpointUrl gateway port) = endpointUrl gateway port := by
  have hv : "/v1".toList = ['/', 'v', '1'] := rfl
  have hstrip : ∀ s : List Char, ((s ++ ['/', 'v', '1']).reverse.dropWhile (· = '/')).reverse = s ++ ['/', 'v', '1'] := by
    intro s
    simp
  unfold rstripSlash endpointUrl
  rw [String.toList_append, hv, hstrip, ← hv, ← String.toList_append, String.ofList_toList]

theorem named_map {rows : List Provider} {f : Provider → Provider} (h : ∀ p, (f p).name = p.name) (name : String) :
    (named (rows.map f) name).isNone = (named rows name).isNone := by
  unfold named
  rw [List.find?_map, Option.isNone_map]
  have hsame : ((fun p : Provider => decide (p.name = name)) ∘ f) = fun p => decide (p.name = name) := by
    funext p
    simp [h p]
  rw [hsame]

theorem availableName_map {rows : List Provider} {f : Provider → Provider} (h : ∀ p, (f p).name = p.name) (name : String)
    (port : Nat) : availableName (rows.map f) name port = availableName rows name port := by
  unfold availableName
  congr 1
  funext candidate
  exact named_map h candidate

theorem availableName_free {rows : List Provider} {name free : String} {port : Nat}
    (h : availableName rows name port = some free) : named rows free = none := by
  simpa using List.find?_some h

/-- The table in the middle of a scan: the rows it started with, some with another type, and
    those registered at the endpoints done. -/
structure Grown (rows : List Provider) (done : List Detected) (r : Registering) (f : Provider → Provider)
    (new : List Provider) : Prop where
  rows_eq : r.rows = rows.map f ++ new
  keyed : Keyed r.rows
  retyped : ∀ p, ∃ t, f p = { p with providerType := t }
  answered : ∀ q ∈ new, q.baseUrl ∈ done.map Detected.baseUrl
  claim : r.claimDefault = decide (rows = [] ∧ new = [])
  others : rows ≠ [] → ∀ q ∈ new, q.isDefault = false
  first : rows = [] → OneDefault new
  nothing : new = [] ↔
    ∀ info ∈ done, detectedRow rows info.baseUrl = none → availableName rows info.name info.port = none

theorem Grown.name {rows new : List Provider} {done : List Detected} {r : Registering} {f : Provider → Provider}
    (h : Grown rows done r f new) (p : Provider) : (f p).name = p.name := by
  obtain ⟨t, ht⟩ := h.retyped p
  rw [ht]

/-- With nothing new the names are those the scan started with. -/
theorem Grown.available {rows : List Provider} {done : List Detected} {r : Registering} {f : Provider → Provider}
    (h : Grown rows done r f []) (info : Detected) :
    availableName r.rows info.name info.port = availableName rows info.name info.port := by
  rw [h.rows_eq, List.append_nil, availableName_map h.name]

theorem grown_start {rows : List Provider} (h : Keyed rows) : Grown rows [] ⟨rows, decide (rows.length = 0), []⟩ id [] where
  rows_eq := by simp
  keyed := h
  retyped := fun p => ⟨p.providerType, rfl⟩
  answered := by simp
  claim := by simp
  others := by simp
  first := fun _ => oneFlagged_nil _
  nothing := by simp

theorem Grown.retype {rows new : List Provider} {done : List Detected} {r : Registering} {f : Provider → Provider}
    (h : Grown rows done r f new) (o : Outside) {info : Detected} {existing : Provider}
    (hfound : detectedRow rows info.baseUrl = some existing) :
    ∃ f' new', Grown rows (done ++ [info]) (register cipher o (some existing) r info) f' new' := by
  let g : Provider → Provider := fun p => if p.id = existing.id then { p with providerType := info.providerType } else p
  have hg : ∀ p, ∃ t, g p = { p with providerType := t } := by
    intro p
    by_cases hp : p.id = existing.id
    · exact ⟨info.providerType, if_pos hp⟩
    · exact ⟨p.providerType, if_neg hp⟩
  have hrows : (register cipher o (some existing) r info).rows = r.rows.map g := rfl
  refine ⟨g ∘ f, new.map g, ?_, ?_, ?_, ?_, ?_, ?_, ?_, ?_⟩
  · rw [hrows, h.rows_eq, List.map_append, List.map_map]
  · rw [hrows]
    refine h.keyed.map ?_ ?_
    · intro p _
      obtain ⟨t, ht⟩ := hg p
      rw [ht]
    · intro p _
      obtain ⟨t, ht⟩ := hg p
      rw [ht]
  · intro p
    obtain ⟨t, ht⟩ := h.retyped p
    obtain ⟨u, hu⟩ := hg (f p)
    exact ⟨u, by rw [Function.comp_apply, hu, ht]⟩
  · intro q hq
    obtain ⟨p, hp, rfl⟩ := List.mem_map.mp hq
    obtain ⟨t, ht⟩ := hg p
    rw [ht, List.map_append]
    exact List.mem_append_left _ (h.answered p hp)
  · have hclaim := h.claim
    simp only [← List.map_eq_nil_iff (f := g) (l := new)] at hclaim
    exact hclaim
  · intro hne q hq
    obtain ⟨p, hp, rfl⟩ := List.mem_map.mp hq
    obtain ⟨t, ht⟩ := hg p
    rw [ht]
    exact h.others hne p hp
  · intro hempty
    refine (oneFlagged_map ?_).mpr (h.first hempty)
    intro p _
    obtain ⟨t, ht⟩ := hg p
    rw [ht]
  · rw [List.map_eq_nil_iff, h.nothing]
    simp [or_imp, forall_and, hfound]

theorem Grown.skip {rows new : List Provider} {done : List Detected} {r : Registering} {f : Provider → Provider}
    (h : Grown rows done r f new) {info : Detected} (hname : availableName r.rows info.name info.port = none) :
    Grown rows (done ++ [info]) r f new where
  rows_eq := h.rows_eq
  keyed := h.keyed
  retyped := h.retyped
  answered := by
    intro q hq
    rw [List.map_append]
    exact List.mem_append_left _ (h.answered q hq)
  claim := h.claim
  others := h.others
  first := h.first
  nothing := by
    constructor
    · intro hnew i hi hrow
      rcases List.mem_append.mp hi with hi | hi
      · exact h.nothing.mp hnew i hi hrow
      · rw [List.mem_singleton] at hi
        subst hi hnew
        rw [← h.available]
        exact hname
    · intro hall
      exact h.nothing.mpr fun i hi => hall i (List.mem_append_left _ hi)

theorem Grown.add {rows new : List Provider} {done : List Detected} {r : Registering} {f : Provider → Provider}
    (h : Grown rows done r f new) {o : Outside} {info : Detected} {q : Provider} {registered : List Detected}
    (hname : availableName r.rows info.name info.port = some q.name) (hid : q.id = newId o r.rows)
    (hurl : q.baseUrl = info.baseUrl) (hflag : q.isDefault = r.claimDefault)
    (hrow : detectedRow rows info.baseUrl = none) :
    Grown rows (done ++ [info]) ⟨r.rows ++ [q], false, registered⟩ f (new ++ [q]) where
  rows_eq := by rw [h.rows_eq, List.append_assoc]
  keyed := h.keyed.append hid (availableName_free hname)
  retyped := h.retyped
  answered := by
    intro p hp
    rw [List.map_append]
    rcases List.mem_append.mp hp with hp | hp
    · exact List.mem_append_left _ (h.answered p hp)
    · rw [List.mem_singleton] at hp
      rw [hp, hurl]
      exact List.mem_append_right _ (List.mem_singleton_self _)
  claim := by simp
  others := by
    intro hne p hp
    rcases List.mem_append.mp hp with hp | hp
    · exact h.others hne p hp
    · rw [List.mem_singleton] at hp
      rw [hp, hflag, h.claim]
      simp [hne]
  first := by
    intro hempty
    rw [h.claim] at hflag
    by_cases hnew : new = []
    · have hq : q.isDefault = true := by simp [hflag, hempty, hnew]
      rw [hnew]
      simp [OneDefault, OneFlagged, hq]
    · refine (h.first hempty).append hnew ?_
      intro p hp
      rw [List.mem_singleton] at hp
      simp [hp, hflag, hnew]
  nothing := by
    refine iff_of_false (by simp) ?_
    intro hall
    obtain rfl := h.nothing.mpr fun i hi => hall i (List.mem_append_left _ hi)
    have hnone := hall info (by simp) hrow
    rw [← h.available, hname] at hnone
    cases hnone

theorem Grown.register {rows new : List Provider} {done : List Detected} {r : Registering} {f : Provider → Provider}
    (h : Grown rows done r f new) (cipher : Cipher) (o : Outside) (info : Detected) :
    ∃ f' new', Grown rows (done ++ [info])
      (Providers.register cipher o (detectedRow rows info.baseUrl) r info) f' new' := by
  cases hrow : detectedRow rows info.baseUrl with
  | some existing => exact h.retype o hrow
  | none =>
    unfold Providers.register
    dsimp only
    cases hname : availableName r.rows info.name info.port with
    | none => exact ⟨f, new, h.skip hname⟩
    | some name => exact ⟨f, _, h.add (o := o) hname rfl rfl rfl hrow⟩

theorem grown_all (cipher : Cipher) {rows : List Provider} (hk : Keyed rows) (o : Outside) (infos : List Detected) :
    ∃ f new, Grown rows infos
      (infos.foldl (fun r info => Providers.register cipher o (detectedRow rows info.baseUrl) r info)
        ⟨rows, decide (rows.length = 0), []⟩) f new := by
  have hrun : ∀ (infos done : List Detected) (r : Registering) (f : Provider → Provider) (new : List Provider),
      Grown rows done r f new → ∃ f' new', Grown rows (done ++ infos)
        (infos.foldl (fun r info => Providers.register cipher o (detectedRow rows info.baseUrl) r info) r) f' new' := by
    intro infos
    induction infos with
    | nil =>
      intro done r f new h
      rw [List.append_nil]
      exact ⟨f, new, h⟩
    | cons info infos ih =>
      intro done r f new h
      obtain ⟨f', new', h'⟩ := h.register cipher o info
      obtain ⟨f'', new'', h''⟩ := ih _ _ _ _ h'
      rw [List.append_assoc] at h''
      exact ⟨f'', new'', h''⟩
  obtain ⟨f, new, h⟩ := hrun infos [] _ _ _ (grown_start hk)
  exact ⟨f, new, h⟩

theorem detectAt_present {rows : List Provider} {o : Outside} {gateway : String} {url : String}
    (h : url ∈ (candidatePorts.filterMap (detectAt cipher rows o gateway)).map Detected.baseUrl) :
    presentAt cipher rows o gateway (canonicalBaseUrl url) = true := by
  obtain ⟨info, hinfo, rfl⟩ := List.mem_map.mp h
  obtain ⟨port, hport, hdetect⟩ := List.mem_filterMap.mp hinfo
  refine List.any_eq_true.mpr ⟨port, hport, ?_⟩
  unfold detectAt at hdetect
  dsimp only at hdetect
  split at hdetect
  · rename_i items hprobe
    cases hdetect
    rw [hprobe]
    simp [canonicalBaseUrl, rstripSlash_endpointUrl, Endpoint.present]
  · cases hdetect

/-- The table after a scan: the rows whose runtimes have not departed, and the new ones. -/
theorem scanLocal_rows (cipher : Cipher) {rows : List Provider} (hk : Keyed rows) {o : Outside} {gateway : String}
    (hg : localGateway o = some gateway) :
    ∃ r f new, Grown rows (candidatePorts.filterMap (detectAt cipher rows o gateway)) r f new ∧
      (scanLocalAi cipher rows o).2 = r.rows.filter (fun p => !departed cipher rows o gateway p) ∧
      (scanLocalAi cipher rows o).2 =
        (rows.filter fun p => !departed cipher rows o gateway p).map f ++ new := by
  obtain ⟨f, new, h⟩ := grown_all cipher hk o (candidatePorts.filterMap (detectAt cipher rows o gateway))
  have hscan : (scanLocalAi cipher rows o).2 =
      ((candidatePorts.filterMap (detectAt cipher rows o gateway)).foldl
        (fun r info => Providers.register cipher o (detectedRow rows info.baseUrl) r info)
        ⟨rows, decide (rows.length = 0), []⟩).rows.filter fun p => !departed cipher rows o gateway p := by
    unfold scanLocalAi
    rw [hg]
  refine ⟨_, f, new, h, hscan, ?_⟩
  rw [hscan, h.rows_eq, List.filter_append, List.filter_map]
  congr 1
  · congr 1
    refine List.filter_congr ?_
    intro p _
    obtain ⟨t, ht⟩ := h.retyped p
    simp [departed, ht]
  · refine List.filter_eq_self.mpr ?_
    intro q hq
    simp [departed, detectAt_present (h.answered q hq)]

theorem scanLocal_unavailable {rows : List Provider} {o : Outside} (hg : localGateway o = none) :
    (scanLocalAi cipher rows o).2 = rows := by
  unfold scanLocalAi
  rw [hg]

theorem scanLocal_keyed {rows : List Provider} (hk : Keyed rows) (o : Outside) :
    Keyed (scanLocalAi cipher rows o).2 := by
  cases hg : localGateway o with
  | none =>
    rw [scanLocal_unavailable hg]
    exact hk
  | some gateway =>
    obtain ⟨r, f, new, h, hrows, -⟩ := scanLocal_rows cipher hk hg
    rw [hrows]
    exact h.keyed.filter _

/-- No endpoint without a provider detected there answers with a listing under a name that
    is free. -/
def NothingNew (cipher : Cipher) (rows : List Provider) (o : Outside) (gateway : String) : Prop :=
  ∀ info ∈ candidatePorts.filterMap (detectAt cipher rows o gateway),
    detectedRow rows info.baseUrl = none → availableName rows info.name info.port = none

/-- A scan keeps one default unless the default's runtime has departed and another provider
    is left or new. -/
theorem oneDefault_scanLocal {rows : List Provider} (hk : Keyed rows) (hone : OneDefault rows) {o : Outside}
    {gateway : String} (hg : localGateway o = some gateway) :
    OneDefault (scanLocalAi cipher rows o).2 ↔
      (∀ p ∈ rows, p.isDefault = true → departed cipher rows o gateway p = false) ∨
        (∀ p ∈ rows, departed cipher rows o gateway p = true) ∧ NothingNew cipher rows o gateway := by
  obtain ⟨r, f, new, h, -, hrows⟩ := scanLocal_rows cipher hk hg
  have hnothing : NothingNew cipher rows o gateway ↔ new = [] := h.nothing.symm
  rw [hrows, hnothing]
  by_cases hempty : rows = []
  · subst hempty
    exact iff_of_true (h.first rfl) (.inl (by simp))
  have hkept : OneDefault ((rows.filter fun p => !departed cipher rows o gateway p).map f) ↔
      (∀ p ∈ rows, p.isDefault = true → departed cipher rows o gateway p = false) ∨
        ∀ p ∈ rows, departed cipher rows o gateway p = true := by
    have hflag : ∀ p ∈ rows.filter (fun p => !departed cipher rows o gateway p), (f p).isDefault = p.isDefault := by
      intro p _
      obtain ⟨t, ht⟩ := h.retyped p
      rw [ht]
    refine (oneFlagged_map hflag).trans ((hone.filter_iff _).trans ?_)
    simp
  by_cases hnew : new = []
  · rw [hnew, List.append_nil, hkept]
    simp
  · have hplain := h.others hempty
    constructor
    · intro hall
      obtain ⟨hne, hkeep⟩ := OneFlagged.of_append hall hnew hplain
      rcases hkept.mp hkeep with hstay | hgone
      · exact .inl hstay
      · refine absurd ?_ hne
        rw [List.map_eq_nil_iff, List.filter_eq_nil_iff]
        intro p hp
        simp [hgone p hp]
    · intro hdefault
      rcases hdefault with hstay | ⟨-, hnone⟩
      · obtain ⟨p, hp, hflag⟩ := OneFlagged.exists hone hempty
        have hmem : p ∈ rows.filter fun p => !departed cipher rows o gateway p :=
          List.mem_filter.mpr ⟨hp, by simp [hstay p hp hflag]⟩
        exact OneFlagged.append (hkept.mpr (.inl hstay)) (List.ne_nil_of_mem (List.mem_map_of_mem hmem)) hplain
      · exact absurd hnone hnew

end Open

/-! ## Runs -/

inductive Event where
  | create (body : ProviderCreate) (o : Outside)
  | update (id : Nat) (body : ProviderUpdate) (o : Outside)
  | delete (id : Nat)
  | setDefault (id : Nat)
  | scanEnv (vars : List EnvVars) (o : Outside)
  | scanLocal (o : Outside)
  | adopt (baseUrl apiKey : String) (name : Option String) (o : Outside)
  /-- An operation that raises before it commits. -/
  | raised

section Run

variable (cipher : Cipher) (catalog : List CatalogEntry) (repr : String → String)

def perform (rows : List Provider) : Event → List Provider
  | .create body o => (createProvider cipher catalog rows body o).2
  | .update id body o => (updateProvider cipher rows id body o).2
  | .delete id => (deleteProvider rows id).2
  | .setDefault id => (setDefaultProvider rows id).2
  | .scanEnv vars o => scanEnvProviders cipher rows vars o
  | .scanLocal o => (scanLocalAi cipher rows o).2
  | .adopt baseUrl apiKey name o => (adoptLocalRuntime cipher repr rows baseUrl apiKey name o).2
  | .raised => rows

def machine : Machine (List Provider) Event where
  init rows := rows = []
  step rows e := some (perform cipher catalog repr rows e)

/-- The operation does not take the default away from under other providers. -/
def KeepsDefault (rows : List Provider) : Event → Prop
  | .scanEnv vars _ =>
    match (envProviders vars).map EnvProvider.name with
    | [] => (∀ p ∈ rows, p.isDefault = true → p.source ≠ .env) ∨ ∀ p ∈ rows, p.source = .env
    | name :: names => name ∉ names
  | .scanLocal o =>
    ∀ gateway, localGateway o = some gateway →
      (∀ p ∈ rows, p.isDefault = true → departed cipher rows o gateway p = false) ∨
        (∀ p ∈ rows, departed cipher rows o gateway p = true) ∧ NothingNew cipher rows o gateway
  | _ => True

variable {cipher catalog repr}

theorem perform_keyed {rows : List Provider} (h : Keyed rows) (e : Event) :
    Keyed (perform cipher catalog repr rows e) := by
  cases e with
  | create body o => exact (createProvider_inserts rows body o).keyed h
  | update id body o => exact updateProvider_keyed h id body o
  | delete id => exact deleteProvider_keyed h id
  | setDefault id => exact setDefaultProvider_keyed h id
  | scanEnv vars o => exact scanEnv_keyed cipher h vars o
  | scanLocal o => exact scanLocal_keyed h o
  | adopt baseUrl apiKey name o => exact (adoptLocalRuntime_inserts rows baseUrl apiKey name o).keyed h
  | raised => exact h

theorem perform_oneDefault {rows : List Provider} (hk : Keyed rows) (h : OneDefault rows) (e : Event) :
    OneDefault (perform cipher catalog repr rows e) ↔ KeepsDefault cipher rows e := by
  cases e with
  | create body o => exact iff_of_true ((createProvider_inserts rows body o).oneDefault h) trivial
  | update id body o => exact iff_of_true (updateProvider_oneDefault h id body o) trivial
  | delete id => exact iff_of_true (deleteProvider_oneDefault hk h id) trivial
  | setDefault id => exact iff_of_true (setDefaultProvider_oneDefault hk h id) trivial
  | scanEnv vars o => exact oneDefault_scanEnv hk h vars o
  | scanLocal o =>
    cases hg : localGateway o with
    | none =>
      have hsame : perform cipher catalog repr rows (.scanLocal o) = rows := scanLocal_unavailable hg
      rw [hsame]
      refine iff_of_true h ?_
      intro gateway hgateway
      rw [hg] at hgateway
      cases hgateway
    | some gateway =>
      refine (oneDefault_scanLocal hk h hg).trans ?_
      unfold KeepsDefault
      simp [hg]
  | adopt baseUrl apiKey name o =>
    exact iff_of_true ((adoptLocalRuntime_inserts rows baseUrl apiKey name o).oneDefault h) trivial
  | raised => exact iff_of_true h trivial

/-- A table that starts empty has one default all along exactly if each scan keeps it. -/
theorem one_default_iff (cipher : Cipher) (catalog : List CatalogEntry) (repr : String → String) (es : List Event) :
    (∀ n rows, (machine cipher catalog repr).exec [] (es.take n) = some rows → OneDefault rows) ↔
      ∀ p ∈ (machine cipher catalog repr).trace [] es, KeepsDefault cipher p.1 p.2 := by
  have hs : ∀ rows e rows', Keyed rows → True → (machine cipher catalog repr).step rows e = some rows' →
      Keyed rows' ∧ (OneDefault rows → (OneDefault rows' ↔ KeepsDefault cipher rows e)) := by
    intro rows e rows' hk _ hst
    cases hst
    exact ⟨perform_keyed hk e, fun h => perform_oneDefault hk h e⟩
  have hempty : Keyed [] := ⟨by simp, by simp⟩
  have hrun := Machine.throughout_iff (P := OneDefault) (A := fun _ => True) hs hempty
    (fun e (_ : e ∈ es) => trivial)
  rw [hrun]
  exact and_iff_right (oneFlagged_nil _)

end Run

/-- No server answers. -/
def silent (uuid4 : Uuid4) : Outside := ⟨fun _ _ => none, uuid4, 0, none, none⟩

def largest : Uuid4 where
  next ids := ids.foldr max 0 + 1
  fresh := by
    intro ids h
    have hle : ∀ (ids : List Nat) (i : Nat), i ∈ ids → i ≤ ids.foldr max 0 := by
      intro ids
      induction ids with
      | nil => nofun
      | cons j ids ih =>
        intro i hi
        rcases List.mem_cons.mp hi with rfl | hi
        · exact le_max_left _ _
        · exact (ih i hi).trans (le_max_right _ _)
    have hlarge := hle ids _ h
    omega

def plain : Cipher := ⟨id, id⟩

/-- The environment's provider goes with its variables; the one added by hand is no default. -/
theorem a_scan_takes_the_default :
    ¬ ∀ (es : List Event) (rows : List Provider), (machine plain [] id).exec [] es = some rows → OneDefault rows := by
  intro h
  have hone := h [.scanEnv [⟨some "litellm", some "http://litellm", some "sk"⟩] (silent largest),
    .create ⟨some "mine", some "http://mine", "sk", none⟩ (silent largest), .scanEnv [] (silent largest)] _ rfl
  exact absurd hone (by decide)

/-- Two indices of one name leave no default. -/
theorem a_name_twice_clears_the_default :
    ¬ ∀ (es : List Event) (rows : List Provider), (machine plain [] id).exec [] es = some rows → OneDefault rows := by
  intro h
  have hone := h [.scanEnv [⟨some "litellm", some "http://a", some "sk"⟩, ⟨some "litellm", some "http://b", some "sk"⟩]
    (silent largest)] _ rfl
  exact absurd hone (by decide)

end Errand.Server.Providers

import Errand.Lib.Dict
import Errand.Lib.Precedence

/-
  Errand.Server.Skills — the skills a task gets (`merge_skills_with_plugins`,
  `_process_task`, errand/task_manager.py).

  The four sources are merged by name first, DB before plugins before git before system, and
  the profile's filter is applied to what is left: DB skills by id, all others by the
  `include_git_skills` flag, but for system skills marked exempt. Skills of a plugin are
  those of an enabled one, in the order of the plugins' names.

  Proved:
  - `merged_eq`: the merge is the first skill of each name in the order of the sources.
  - `mem_taskSkills`: what the filter leaves of it.
  - `composed_iff`: when the result is what a profile's choice asks for.
  - `an_unselected_skill_hides`, `a_filtered_plugin_is_dropped`: two profiles for which it
    is not.
-/

namespace Errand.Server.Skills

open Errand.Lib Errand.Lib.Precedence

structure SkillFile where
  path : String
  content : String
  deriving DecidableEq, Repr

/-- A parsed `SKILL.md` directory. -/
structure ParsedSkill where
  name : String
  description : String
  instructions : String
  files : List SkillFile
  deriving DecidableEq, Repr

/-- A row of the skills table; the text of a UUID is not empty. -/
structure DbSkill where
  id : String
  id_ne : id ≠ ""
  skill : ParsedSkill
  deriving DecidableEq

/-- A skill as a dict: the keys `id`, `_plugin_name` and `_exempt_from_profile_filter` may be
    missing. -/
structure Skill where
  id : Option String
  pluginName : Option String
  exempt : Bool
  parsed : ParsedSkill
  deriving DecidableEq, Repr

def Skill.name (s : Skill) : String := s.parsed.name

def ofDb (s : DbSkill) : Skill := ⟨some s.id, none, false, s.skill⟩

def ofPlugin (s : String × ParsedSkill) : Skill := ⟨none, some s.1, false, s.2⟩

def ofGit (s : ParsedSkill) : Skill := ⟨none, none, false, s⟩

/-- A system skill, and whether its registry entry is exempt. -/
def ofSystem (s : Bool × ParsedSkill) : Skill := ⟨none, none, s.1, s.2⟩

/-! ## The merge -/

structure Conflict where
  skill : String
  other : String
  deriving DecidableEq, Repr

structure Merge where
  seen : List (String × String)
  merged : List Skill
  pluginConflicts : List (String × List Conflict)

def addConflict (conflicts : List (String × List Conflict)) (pluginName : String) (c : Conflict) :
    List (String × List Conflict) :=
  Dict.set conflicts pluginName ((Dict.get? conflicts pluginName).getD [] ++ [c])

def mergePlugin (m : Merge) (s : Skill) : Merge :=
  let pluginName := s.pluginName.getD ""
  match Dict.get? m.seen s.name with
  | some origin =>
    if pluginName.isEmpty then m
    else { m with pluginConflicts := addConflict m.pluginConflicts pluginName ⟨s.name, origin⟩ }
  | none =>
    let origin := if pluginName.isEmpty then "plugin" else "plugin:" ++ pluginName
    { m with merged := m.merged ++ [s], seen := Dict.set m.seen s.name origin }

/-- A git or a system skill. -/
def mergeSource (origin : String) (m : Merge) (s : Skill) : Merge :=
  match Dict.get? m.seen s.name with
  | some _ => m
  | none => { m with merged := m.merged ++ [s], seen := Dict.set m.seen s.name origin }

def mergeStart (dbSkills : List Skill) : Merge :=
  ⟨Dict.ofItems (dbSkills.map fun s => (s.name, "db")), dbSkills, []⟩

def mergeSkillsWithPlugins (dbSkills gitSkills systemSkills pluginSkills : List Skill) :
    List Skill × List (String × List Conflict) :=
  let m := pluginSkills.foldl mergePlugin (mergeStart dbSkills)
  let m := gitSkills.foldl (mergeSource "git") m
  let m := systemSkills.foldl (mergeSource "system") m
  (m.merged, m.pluginConflicts)

/-! ## The filter -/

structure Profile where
  skillIds : Option (List String)
  includeGitSkills : Bool
  deriving DecidableEq, Repr

def hasId (s : Skill) : Bool :=
  match s.id with
  | some id => !id.isEmpty
  | none => false

def filterSkills (profile : Profile) (skills : List Skill) : List Skill :=
  match profile.skillIds with
  | none => skills
  | some ids =>
    skills.filter (fun s => hasId s && s.id.any ids.contains) ++
      skills.filter fun s => !hasId s && (profile.includeGitSkills || s.exempt)

/-- The sources of a task's skills. -/
structure Sources where
  db : List DbSkill
  plugins : List (String × ParsedSkill)
  git : List ParsedSkill
  system : List (Bool × ParsedSkill)
  deriving DecidableEq

def Sources.lower (src : Sources) : List Skill :=
  src.plugins.map ofPlugin ++ src.git.map ofGit ++ src.system.map ofSystem

def merged (src : Sources) : List Skill :=
  (mergeSkillsWithPlugins (src.db.map ofDb) (src.git.map ofGit) (src.system.map ofSystem)
    (src.plugins.map ofPlugin)).1

/-- The skills `_process_task` packs. -/
def taskSkills (src : Sources) (profile : Profile) : List Skill := filterSkills profile (merged src)

/-! ## The merge by name -/

/-- `seen` has the names that are merged. -/
def Knows (m : Merge) : Prop := ∀ n, (Dict.get? m.seen n).isSome = true ↔ n ∈ m.merged.map Skill.name

/-- A step of the merge takes a skill whose name is new. -/
def Adds (f : Merge → Skill → Merge) : Prop :=
  ∀ m s, Knows m → Knows (f m s) ∧ (f m s).merged = add Skill.name m.merged s

theorem knows_add {m : Merge} (h : Knows m) (s : Skill) (origin : String) :
    Knows { m with merged := m.merged ++ [s], seen := Dict.set m.seen s.name origin } := by
  intro n
  show (Dict.get? (Dict.set m.seen s.name origin) n).isSome = true ↔ n ∈ (m.merged ++ [s]).map Skill.name
  rw [Dict.get?_set, List.map_append, List.mem_append, ← h n]
  by_cases hn : s.name = n
  · simp [hn]
  · simp [hn, Ne.symm hn]

theorem add_seen {m : Merge} (h : Knows m) {s : Skill} {origin : String}
    (hseen : Dict.get? m.seen s.name = some origin) : add Skill.name m.merged s = m.merged := by
  have hmem : s.name ∈ m.merged.map Skill.name := (h s.name).mp (by rw [hseen]; rfl)
  rw [add, if_pos hmem]

theorem add_unseen {m : Merge} (h : Knows m) {s : Skill} (hseen : Dict.get? m.seen s.name = none) :
    add Skill.name m.merged s = m.merged ++ [s] := by
  have hmem : s.name ∉ m.merged.map Skill.name := by
    intro hmem
    have hsome := (h s.name).mpr hmem
    rw [hseen] at hsome
    cases hsome
  rw [add, if_neg hmem]

theorem mergePlugin_adds : Adds mergePlugin := by
  intro m s h
  unfold mergePlugin
  cases hseen : Dict.get? m.seen s.name with
  | some origin =>
    rw [add_seen h hseen]
    simp only
    split
    · exact ⟨h, rfl⟩
    · exact ⟨h, rfl⟩
  | none =>
    rw [add_unseen h hseen]
    exact ⟨knows_add h s _, rfl⟩

theorem mergeSource_adds (origin : String) : Adds (mergeSource origin) := by
  intro m s h
  unfold mergeSource
  cases hseen : Dict.get? m.seen s.name with
  | some _ =>
    rw [add_seen h hseen]
    exact ⟨h, rfl⟩
  | none =>
    rw [add_unseen h hseen]
    exact ⟨knows_add h s _, rfl⟩

theorem foldl_adds {f : Merge → Skill → Merge} (hf : Adds f) {m : Merge} (h : Knows m) (skills : List Skill) :
    Knows (skills.foldl f m) ∧ (skills.foldl f m).merged = extend Skill.name m.merged skills := by
  induction skills generalizing m with
  | nil => exact ⟨h, rfl⟩
  | cons s skills ih =>
    obtain ⟨hknows, hmerged⟩ := hf m s h
    obtain ⟨hrest, heq⟩ := ih hknows
    refine ⟨hrest, ?_⟩
    rw [List.foldl_cons, heq, hmerged]
    rfl

theorem mergeStart_knows (dbSkills : List Skill) : Knows (mergeStart dbSkills) := by
  intro n
  rw [← Dict.mem_keys_iff]
  show n ∈ Dict.keys (Dict.ofItems _) ↔ n ∈ dbSkills.map Skill.name
  rw [Dict.mem_keys_ofItems, Dict.keys, List.map_map]
  rfl

theorem merged_eq (src : Sources) : merged src = extend Skill.name (src.db.map ofDb) src.lower := by
  obtain ⟨hplugins, hpm⟩ := foldl_adds mergePlugin_adds (mergeStart_knows (src.db.map ofDb)) (src.plugins.map ofPlugin)
  obtain ⟨hgit, hgm⟩ := foldl_adds (mergeSource_adds "git") hplugins (src.git.map ofGit)
  obtain ⟨-, hsm⟩ := foldl_adds (mergeSource_adds "system") hgit (src.system.map ofSystem)
  unfold merged mergeSkillsWithPlugins Sources.lower extend
  rw [List.foldl_append, List.foldl_append]
  rw [hpm] at hgm
  rw [hgm] at hsm
  exact hsm

/-! ## What the filter leaves -/

def DistinctNames (db : List DbSkill) : Prop := (db.map fun s => s.skill.name).Nodup

instance (db : List DbSkill) : Decidable (DistinctNames db) := by unfold DistinctNames; infer_instance

def Selected (profile : Profile) (s : DbSkill) : Prop :=
  match profile.skillIds with
  | none => True
  | some ids => s.id ∈ ids

instance (profile : Profile) (s : DbSkill) : Decidable (Selected profile s) := by
  unfold Selected
  split
  · exact inferInstance
  · exact inferInstance

/-- The filter spares it. -/
def Spared (profile : Profile) (s : Skill) : Prop :=
  match profile.skillIds with
  | none => True
  | some ids =>
    match s.id with
    | some id => id ∈ ids
    | none => profile.includeGitSkills = true ∨ s.exempt = true

def Sources.all (src : Sources) : List Skill := src.db.map ofDb ++ src.lower

theorem names_ofDb (db : List DbSkill) : (db.map ofDb).map Skill.name = db.map fun s => s.skill.name := by
  rw [List.map_map]
  rfl

theorem mem_merged {src : Sources} (h : DistinctNames src.db) (s : Skill) :
    s ∈ merged src ↔ first Skill.name src.all s.name = some s := by
  rw [merged_eq]
  exact mem_extend (by rw [names_ofDb]; exact h) src.lower s

/-- A dict with an id is a DB skill's, and that is not empty. -/
theorem lower_id {src : Sources} {s : Skill} (h : s ∈ src.lower) : s.id = none := by
  simp only [Sources.lower, List.mem_append, List.mem_map] at h
  rcases h with (⟨_, _, rfl⟩ | ⟨_, _, rfl⟩) | ⟨_, _, rfl⟩ <;> rfl

theorem hasId_iff {src : Sources} {s : Skill} (h : s ∈ src.all) : hasId s = true ↔ s.id.isSome = true := by
  rcases List.mem_append.mp h with h | h
  · obtain ⟨d, _, rfl⟩ := List.mem_map.mp h
    simp [hasId, ofDb, d.id_ne]
  · simp [hasId, lower_id h]

theorem mem_taskSkills {src : Sources} (h : DistinctNames src.db) (profile : Profile) (s : Skill) :
    s ∈ taskSkills src profile ↔ first Skill.name src.all s.name = some s ∧ Spared profile s := by
  unfold taskSkills filterSkills Spared
  cases profile.skillIds with
  | none => simp [mem_merged h]
  | some ids =>
    simp only [List.mem_append, List.mem_filter, mem_merged h, Bool.and_eq_true, Bool.or_eq_true, Bool.not_eq_true',
      ← Bool.not_eq_true]
    rw [← and_or_left]
    refine and_congr_right fun hfirst => ?_
    have hid := hasId_iff (first_mem hfirst)
    cases hs : s.id with
    | none =>
      rw [hs] at hid
      simp [hid]
    | some id =>
      rw [hs] at hid
      simp [hid]

/-! ## What a profile asks for -/

/-- The same sources without the DB skills a profile leaves out. -/
def Sources.selected (src : Sources) (profile : Profile) : Sources :=
  { src with db := src.db.filter fun d => Selected profile d }

structure Composed (src : Sources) (profile : Profile) : Prop where
  unique : ((taskSkills src profile).map Skill.name).Nodup
  selected : ∀ d ∈ src.db, Selected profile d → ofDb d ∈ taskSkills src profile
  /-- Every plugin skill whose name no selected DB skill and no earlier plugin skill has. -/
  plugins : ∀ before p after, src.plugins = before ++ p :: after →
    (∀ d ∈ src.db, Selected profile d → d.skill.name ≠ p.2.name) → (∀ q ∈ before, q.2.name ≠ p.2.name) →
    ofPlugin p ∈ taskSkills src profile
  exempt : ∀ s ∈ src.system, s.1 = true → ∃ t ∈ taskSkills src profile, t.name = s.2.name
  unselected : ∀ d ∈ src.db, ¬ Selected profile d → ofDb d ∉ taskSkills src profile
  /-- A DB skill that is left out hides none of the others. -/
  unhidden : ∀ t ∈ taskSkills (src.selected profile) profile, t ∈ taskSkills src profile

/-- Without a list of skills always. With the external skills, where no skill left out has
    the name of another source's; without them, where each plugin skill has the name of a
    selected one, and no other skill stands before an exempt one. -/
def Composable (src : Sources) (profile : Profile) : Prop :=
  profile.skillIds ≠ none →
    if profile.includeGitSkills then ∀ d ∈ src.db, ¬ Selected profile d → ∀ s ∈ src.lower, s.name ≠ d.skill.name
    else
      (∀ p ∈ src.plugins, ∃ d ∈ src.db, Selected profile d ∧ d.skill.name = p.2.name) ∧
      ∀ s ∈ src.system, s.1 = true →
        (∃ d ∈ src.db, Selected profile d ∧ d.skill.name = s.2.name) ∨
        (∀ d ∈ src.db, d.skill.name ≠ s.2.name) ∧ (∀ g ∈ src.git, g.name ≠ s.2.name) ∧
          ∃ t, first (fun t => t.2.name) src.system s.2.name = some t ∧ t.1 = true

/-! ### The first of a name -/

theorem first_db {src : Sources} (h : DistinctNames src.db) {d : DbSkill} (hd : d ∈ src.db) :
    first Skill.name src.all d.skill.name = some (ofDb d) := by
  have hnames : ((src.db.map ofDb).map Skill.name).Nodup := by
    rw [names_ofDb]
    exact h
  have hfirst := (mem_iff_first hnames (ofDb d)).mp (List.mem_map_of_mem hd)
  rw [Sources.all, first_append]
  show (first Skill.name (src.db.map ofDb) (ofDb d).name).or _ = _
  rw [hfirst]
  rfl

theorem first_lower {src : Sources} {k : String} (h : ∀ d ∈ src.db, d.skill.name ≠ k) :
    first Skill.name src.all k = first Skill.name src.lower k := by
  rw [Sources.all, first_append, first_none.mpr]
  · rfl
  · intro s hs
    obtain ⟨d, hd, rfl⟩ := List.mem_map.mp hs
    exact h d hd

theorem first_cases {src : Sources} {k : String} {t : Skill} (h : first Skill.name src.all k = some t) :
    (∃ d ∈ src.db, t = ofDb d ∧ d.skill.name = k) ∨
      (∀ d ∈ src.db, d.skill.name ≠ k) ∧ first Skill.name src.lower k = some t := by
  by_cases hdb : ∀ d ∈ src.db, d.skill.name ≠ k
  · rw [first_lower hdb] at h
    exact .inr ⟨hdb, h⟩
  · left
    have hname := first_key h
    rcases List.mem_append.mp (first_mem h) with hmem | hmem
    · obtain ⟨d, hd, rfl⟩ := List.mem_map.mp hmem
      exact ⟨d, hd, rfl, hname⟩
    · exfalso
      rw [Sources.all, first_append] at h
      cases hfirst : first Skill.name (src.db.map ofDb) k with
      | none =>
        refine hdb fun d hd => ?_
        exact first_none.mp hfirst (ofDb d) (List.mem_map_of_mem hd)
      | some u =>
        rw [hfirst] at h
        obtain rfl := Option.some.inj h
        obtain ⟨d, hd, rfl⟩ := List.mem_map.mp (first_mem hfirst)
        have hid := lower_id hmem
        cases hid

theorem first_plugin {src : Sources} {before after : List (String × ParsedSkill)} {p : String × ParsedSkill}
    (hplugins : src.plugins = before ++ p :: after) (hdb : ∀ d ∈ src.db, d.skill.name ≠ p.2.name)
    (hbefore : ∀ q ∈ before, q.2.name ≠ p.2.name) : first Skill.name src.all p.2.name = some (ofPlugin p) := by
  rw [first_lower hdb, Sources.lower, hplugins]
  simp only [List.map_append, List.map_cons, List.append_assoc, List.cons_append]
  refine first_eq_of_before (a := ofPlugin p) ?_
  intro s hs
  obtain ⟨q, hq, rfl⟩ := List.mem_map.mp hs
  exact hbefore q hq

theorem mem_lower_system {src : Sources} {s : Bool × ParsedSkill} (h : s ∈ src.system) : ofSystem s ∈ src.lower :=
  List.mem_append.mpr (.inr (List.mem_map_of_mem h))

theorem mem_lower_plugin {src : Sources} {p : String × ParsedSkill} (h : p ∈ src.plugins) : ofPlugin p ∈ src.lower :=
  List.mem_append.mpr (.inl (List.mem_append.mpr (.inl (List.mem_map_of_mem h))))

/-! ### What holds for every profile -/

theorem spared_db {profile : Profile} {d : DbSkill} : Spared profile (ofDb d) ↔ Selected profile d := by
  unfold Spared Selected
  cases profile.skillIds with
  | none => exact Iff.rfl
  | some ids => exact Iff.rfl

theorem unique_names {src : Sources} (h : DistinctNames src.db) (profile : Profile) :
    ((taskSkills src profile).map Skill.name).Nodup := by
  have hmerged : ((merged src).map Skill.name).Nodup := by
    rw [merged_eq]
    exact nodup_extend (by rw [names_ofDb]; exact h) src.lower
  unfold taskSkills filterSkills
  cases profile.skillIds with
  | none => exact hmerged
  | some ids =>
    simp only [List.map_append, List.nodup_append]
    refine ⟨hmerged.sublist (List.filter_sublist.map _), hmerged.sublist (List.filter_sublist.map _), ?_⟩
    intro a ha b hb hab
    obtain ⟨s, hs, rfl⟩ := List.mem_map.mp ha
    obtain ⟨t, ht, rfl⟩ := List.mem_map.mp hb
    obtain ⟨hs, hsid⟩ := List.mem_filter.mp hs
    obtain ⟨ht, htid⟩ := List.mem_filter.mp ht
    obtain rfl := List.inj_on_of_nodup_map hmerged hs ht hab
    simp only [Bool.and_eq_true, Bool.not_eq_true'] at hsid htid
    rw [hsid.1] at htid
    cases htid.1

theorem mem_ofDb {src : Sources} (h : DistinctNames src.db) {profile : Profile} {d : DbSkill} (hd : d ∈ src.db) :
    ofDb d ∈ taskSkills src profile ↔ Selected profile d := by
  rw [mem_taskSkills h, spared_db]
  exact and_iff_right (first_db h hd)

/-! ### With a list of skills -/

theorem distinct_selected {src : Sources} (h : DistinctNames src.db) (profile : Profile) :
    DistinctNames (src.selected profile).db :=
  h.sublist (List.filter_sublist.map _)

theorem mem_selected_db {src : Sources} {profile : Profile} {d : DbSkill} :
    d ∈ (src.selected profile).db ↔ d ∈ src.db ∧ Selected profile d := by
  simp [Sources.selected]

theorem spared_lower {src : Sources} {profile : Profile} (hids : profile.skillIds ≠ none) {s : Skill}
    (h : s ∈ src.lower) : Spared profile s ↔ profile.includeGitSkills = true ∨ s.exempt = true := by
  unfold Spared
  cases hp : profile.skillIds with
  | none => exact absurd hp hids
  | some ids =>
    rw [lower_id h]

/-- No selected skill has the name of one left out. -/
theorem selected_ne {src : Sources} (h : DistinctNames src.db) {profile : Profile} {d e : DbSkill} (hd : d ∈ src.db)
    (he : e ∈ src.db) (hsel : Selected profile d) (hun : ¬ Selected profile e) : d.skill.name ≠ e.skill.name := by
  intro heq
  obtain rfl := List.inj_on_of_nodup_map h hd he heq
  exact hun hsel

/-- What is the first of its name without the DB skills left out, and no skill left out has
    its name, is so with them. -/
theorem first_of_selected {src : Sources} (h : DistinctNames src.db) {profile : Profile} {k : String} {t : Skill}
    (hk : ∀ d ∈ src.db, ¬ Selected profile d → d.skill.name ≠ k)
    (ht : first Skill.name (src.selected profile).all k = some t) : first Skill.name src.all k = some t := by
  rcases first_cases ht with ⟨d, hd, rfl, rfl⟩ | ⟨hdb, hlower⟩
  · exact first_db h (mem_selected_db.mp hd).1
  · rw [first_lower]
    · exact hlower
    · intro d hd
      by_cases hsel : Selected profile d
      · exact hdb d (mem_selected_db.mpr ⟨hd, hsel⟩)
      · exact hk d hd hsel

theorem composed_external {src : Sources} (h : DistinctNames src.db) {profile : Profile}
    (hids : profile.skillIds ≠ none) (hinclude : profile.includeGitSkills = true) :
    Composed src profile ↔
      ∀ d ∈ src.db, ¬ Selected profile d → ∀ s ∈ src.lower, s.name ≠ d.skill.name := by
  constructor
  · intro hc d hd hun s hs hname
    obtain ⟨t, ht⟩ := first_of_mem Skill.name hs
    rw [hname] at ht
    have hall : first Skill.name (src.selected profile).all d.skill.name = some t := by
      rw [first_lower]
      · exact ht
      · intro e he
        obtain ⟨he, hsel⟩ := mem_selected_db.mp he
        exact selected_ne h he hd hsel hun
    have hmem : t ∈ taskSkills (src.selected profile) profile := by
      rw [mem_taskSkills (distinct_selected h profile), first_key ht]
      exact ⟨hall, (spared_lower hids (first_mem ht)).mpr (.inl hinclude)⟩
    have hfirst := ((mem_taskSkills h profile t).mp (hc.unhidden t hmem)).1
    rw [first_key ht, first_db h hd] at hfirst
    obtain rfl := Option.some.inj hfirst
    have hid := lower_id (first_mem ht)
    cases hid
  · intro hfree
    have hlower : ∀ s ∈ src.lower, ∀ d ∈ src.db, ¬ Selected profile d → d.skill.name ≠ s.name := by
      intro s hs d hd hun heq
      exact hfree d hd hun s hs heq.symm
    refine ⟨unique_names h profile, fun d hd hsel => (mem_ofDb h hd).mpr hsel, ?_, ?_,
      fun d hd hun hmem => hun ((mem_ofDb h hd).mp hmem), ?_⟩
    · intro before p after hplugins hdb hbefore
      have hp : ofPlugin p ∈ src.lower := mem_lower_plugin (by rw [hplugins]; simp)
      rw [mem_taskSkills h]
      refine ⟨first_plugin hplugins ?_ hbefore, (spared_lower hids hp).mpr (.inl hinclude)⟩
      intro d hd
      by_cases hsel : Selected profile d
      · exact hdb d hd hsel
      · exact hlower _ hp d hd hsel
    · intro s hs _
      have hmem := mem_lower_system hs
      obtain ⟨t, ht⟩ := first_of_mem Skill.name (List.mem_append_right (src.db.map ofDb) hmem)
      refine ⟨t, (mem_taskSkills h profile t).mpr ⟨?_, ?_⟩, first_key ht⟩
      · rw [first_key ht]
        exact ht
      · rcases first_cases ht with ⟨d, hd, rfl, hname⟩ | ⟨-, hfirst⟩
        · rw [spared_db]
          by_contra hun
          exact hlower _ hmem d hd hun hname
        · exact (spared_lower hids (first_mem hfirst)).mpr (.inl hinclude)
    · intro t ht
      obtain ⟨hfirst, hspared⟩ := (mem_taskSkills (distinct_selected h profile) profile t).mp ht
      refine (mem_taskSkills h profile t).mpr ⟨first_of_selected h ?_ hfirst, hspared⟩
      intro d hd hun
      rcases first_cases hfirst with ⟨e, he, rfl, hname⟩ | ⟨-, hlow⟩
      · obtain ⟨he, hsel⟩ := mem_selected_db.mp he
        exact (selected_ne h he hd hsel hun).symm
      · exact hlower t (first_mem hlow) d hd hun

theorem first_ofSystem (system : List (Bool × ParsedSkill)) (k : String) :
    first Skill.name (system.map ofSystem) k = (first (fun t => t.2.name) system k).map ofSystem := List.find?_map

/-- The first of a name in the lower sources that is exempt is a system skill, and no plugin
    and no git skill has the name. -/
theorem first_exempt {src : Sources} {k : String} {t : Skill} (h : first Skill.name src.lower k = some t)
    (he : t.exempt = true) :
    (∀ p ∈ src.plugins, p.2.name ≠ k) ∧ (∀ g ∈ src.git, g.name ≠ k) ∧
      ∃ s, first (fun t => t.2.name) src.system k = some s ∧ s.1 = true ∧ ofSystem s = t := by
  rw [Sources.lower, first_append, first_append] at h
  have hplugin : first Skill.name (src.plugins.map ofPlugin) k = none := by
    by_contra hsome
    obtain ⟨u, hu⟩ := Option.ne_none_iff_exists'.mp hsome
    rw [hu] at h
    obtain rfl := Option.some.inj h
    obtain ⟨p, -, rfl⟩ := List.mem_map.mp (first_mem hu)
    cases he
  have hgit : first Skill.name (src.git.map ofGit) k = none := by
    by_contra hsome
    obtain ⟨u, hu⟩ := Option.ne_none_iff_exists'.mp hsome
    rw [hplugin, hu] at h
    obtain rfl := Option.some.inj h
    obtain ⟨g, -, rfl⟩ := List.mem_map.mp (first_mem hu)
    cases he
  rw [hplugin, hgit, first_ofSystem] at h
  obtain ⟨s, hs, rfl⟩ := Option.map_eq_some_iff.mp h
  refine ⟨?_, ?_, s, hs, he, rfl⟩
  · intro p hp
    exact first_none.mp hplugin _ (List.mem_map_of_mem hp)
  · intro g hg
    exact first_none.mp hgit _ (List.mem_map_of_mem hg)

theorem first_lower_system {src : Sources} {k : String} {s : Bool × ParsedSkill}
    (hplugins : ∀ p ∈ src.plugins, p.2.name ≠ k) (hgit : ∀ g ∈ src.git, g.name ≠ k)
    (hs : first (fun t => t.2.name) src.system k = some s) : first Skill.name src.lower k = some (ofSystem s) := by
  have hp : first Skill.name (src.plugins.map ofPlugin) k = none := by
    rw [first_none]
    intro t ht
    obtain ⟨p, hp, rfl⟩ := List.mem_map.mp ht
    exact hplugins p hp
  have hg : first Skill.name (src.git.map ofGit) k = none := by
    rw [first_none]
    intro t ht
    obtain ⟨g, hg, rfl⟩ := List.mem_map.mp ht
    exact hgit g hg
  rw [Sources.lower, first_append, first_append, hp, hg, first_ofSystem, hs]
  rfl

theorem composed_filtered {src : Sources} (h : DistinctNames src.db) {profile : Profile}
    (hids : profile.skillIds ≠ none) (hinclude : profile.includeGitSkills = false) :
    Composed src profile ↔
      (∀ p ∈ src.plugins, ∃ d ∈ src.db, Selected profile d ∧ d.skill.name = p.2.name) ∧
      ∀ s ∈ src.system, s.1 = true →
        (∃ d ∈ src.db, Selected profile d ∧ d.skill.name = s.2.name) ∨
        (∀ d ∈ src.db, d.skill.name ≠ s.2.name) ∧ (∀ g ∈ src.git, g.name ≠ s.2.name) ∧
          ∃ t, first (fun t => t.2.name) src.system s.2.name = some t ∧ t.1 = true := by
  have hspared : ∀ s ∈ src.lower, Spared profile s ↔ s.exempt = true := by
    intro s hs
    rw [spared_lower hids hs, hinclude]
    simp
  constructor
  · intro hc
    constructor
    · intro p hp
      by_contra hno
      push Not at hno
      obtain ⟨q, hq⟩ := first_of_mem (fun p : String × ParsedSkill => p.2.name) hp
      have hname := first_key hq
      obtain ⟨-, before, after, hplugins, hbefore⟩ := List.find?_eq_some_iff_append.mp hq
      have hmem := hc.plugins before q after hplugins (by rw [hname]; exact hno)
        (by rw [hname]; simpa using hbefore)
      have hexempt := (hspared _ (mem_lower_plugin (first_mem hq))).mp ((mem_taskSkills h profile _).mp hmem).2
      cases hexempt
    · intro s hs hexempt
      obtain ⟨t, ht, hname⟩ := hc.exempt s hs hexempt
      obtain ⟨hfirst, hst⟩ := (mem_taskSkills h profile t).mp ht
      rw [hname] at hfirst
      rcases first_cases hfirst with ⟨d, hd, rfl, hdname⟩ | ⟨hdb, hlower⟩
      · exact .inl ⟨d, hd, spared_db.mp hst, hdname⟩
      · obtain ⟨-, hgit, u, hu, hue, -⟩ := first_exempt hlower ((hspared t (first_mem hlower)).mp hst)
        exact .inr ⟨hdb, hgit, u, hu, hue⟩
  · intro hparts
    rcases hparts with ⟨hplugins, hsystem⟩
    refine ⟨unique_names h profile, fun d hd hsel => (mem_ofDb h hd).mpr hsel, ?_, ?_,
      fun d hd hun hmem => hun ((mem_ofDb h hd).mp hmem), ?_⟩
    · intro before p after hsplit hdb _
      obtain ⟨d, hd, hsel, hname⟩ := hplugins p (by rw [hsplit]; simp)
      exact absurd hname (hdb d hd hsel)
    · intro s hs hexempt
      rcases hsystem s hs hexempt with ⟨d, hd, hsel, hname⟩ | ⟨hdb, hgit, t, ht, hte⟩
      · exact ⟨ofDb d, (mem_ofDb h hd).mpr hsel, hname⟩
      · have hp : ∀ p ∈ src.plugins, p.2.name ≠ s.2.name := by
          intro p hp heq
          obtain ⟨d, hd, -, hname⟩ := hplugins p hp
          exact hdb d hd (hname.trans heq)
        have hname : t.2.name = s.2.name := by
          have hkey := first_key ht
          exact hkey
        refine ⟨ofSystem t, (mem_taskSkills h profile _).mpr ⟨?_, ?_⟩, hname⟩
        · show first Skill.name src.all t.2.name = _
          rw [hname, first_lower hdb]
          exact first_lower_system hp hgit ht
        · exact (hspared _ (mem_lower_system (first_mem ht))).mpr hte
    · intro t ht
      obtain ⟨hfirst, hst⟩ := (mem_taskSkills (distinct_selected h profile) profile t).mp ht
      rcases first_cases hfirst with ⟨d, hd, rfl, -⟩ | ⟨hdb, hlower⟩
      · obtain ⟨hd, hsel⟩ := mem_selected_db.mp hd
        exact (mem_ofDb h hd).mpr hsel
      · have hexempt := (hspared t (first_mem hlower)).mp hst
        obtain ⟨-, -, s, hs, hse, rfl⟩ := first_exempt hlower hexempt
        refine (mem_taskSkills h profile _).mpr ⟨?_, hst⟩
        rcases hsystem s (first_mem hs) hse with ⟨d, hd, hsel, hname⟩ | ⟨hall, -⟩
        · exact absurd hname (hdb d (mem_selected_db.mpr ⟨hd, hsel⟩))
        · show first Skill.name src.all s.2.name = _
          rw [first_lower hall]
          exact hlower

/-! ### Without one -/

theorem composed_unfiltered {src : Sources} (h : DistinctNames src.db) {profile : Profile}
    (hids : profile.skillIds = none) : Composed src profile := by
  have hspared : ∀ s, Spared profile s := by
    intro s
    rw [Spared, hids]
    trivial
  have hselected : ∀ d, Selected profile d := by
    intro d
    rw [Selected, hids]
    trivial
  refine ⟨unique_names h profile, fun d hd hsel => (mem_ofDb h hd).mpr hsel, ?_, ?_,
    fun d hd hun => absurd (hselected d) hun, ?_⟩
  · intro before p after hplugins hdb hbefore
    refine (mem_taskSkills h profile _).mpr ⟨first_plugin hplugins ?_ hbefore, hspared _⟩
    intro d hd
    exact hdb d hd (hselected d)
  · intro s hs _
    obtain ⟨t, ht⟩ := first_of_mem Skill.name (List.mem_append_right (src.db.map ofDb) (mem_lower_system hs))
    refine ⟨t, (mem_taskSkills h profile t).mpr ⟨?_, hspared t⟩, first_key ht⟩
    rw [first_key ht]
    exact ht
  · intro t ht
    obtain ⟨hfirst, -⟩ := (mem_taskSkills (distinct_selected h profile) profile t).mp ht
    refine (mem_taskSkills h profile t).mpr ⟨first_of_selected h ?_ hfirst, hspared t⟩
    intro d _ hun
    exact absurd (hselected d) hun

/-- The result is what the profile asks for exactly if no name stands in its way. -/
theorem composed_iff {src : Sources} (h : DistinctNames src.db) (profile : Profile) :
    Composed src profile ↔ Composable src profile := by
  unfold Composable
  by_cases hids : profile.skillIds = none
  · exact iff_of_true (composed_unfiltered h hids) fun hne => absurd hids hne
  · cases hinclude : profile.includeGitSkills with
    | true =>
      rw [composed_external h hids hinclude]
      simp [hids]
    | false =>
      rw [composed_filtered h hids hinclude]
      simp [hids]

/-- A skill with no more than a name. -/
def bare (name : String) : ParsedSkill := ⟨name, "", "", []⟩

/-- A DB skill, and a plugin's with a name of its own. -/
def apart : Sources := ⟨[⟨"a", by decide, bare "notes"⟩], [("slack", bare "post")], [], [(true, bare "repo-context")]⟩

theorem apart_composed : Composed apart ⟨some [], true⟩ := by
  refine (composed_iff (by decide) _).mpr ?_
  intro _
  rw [if_pos rfl]
  intro d hd _ s hs
  revert d s
  decide

/-- A plugin's skill under the name of a DB skill the profile leaves out. -/
def shadowed : Sources := ⟨[⟨"a", by decide, bare "post"⟩], [("slack", bare "post")], [], []⟩

theorem an_unselected_skill_hides :
    ¬ ∀ (src : Sources) (profile : Profile), DistinctNames src.db → Composed src profile := by
  intro h
  have hc := h shadowed ⟨some [], true⟩ (by decide)
  have hmem := hc.plugins [] ("slack", bare "post") [] rfl (by decide) nofun
  exact absurd hmem (by decide)

/-- A profile with a list of skills and without external ones loses its plugins. -/
theorem a_filtered_plugin_is_dropped :
    ¬ ∀ (src : Sources) (profile : Profile), DistinctNames src.db → (∀ d ∈ src.db, Selected profile d) →
      Composed src profile := by
  intro h
  have hc := h apart ⟨some ["a"], false⟩ (by decide) (by decide)
  have hmem := hc.plugins [] ("slack", bare "post") [] rfl (by decide) nofun
  exact absurd hmem (by decide)

end Errand.Server.Skills

import Errand.Runner.Python
import Errand.Server.SkillDirectories

/-
  Errand.Server.PluginLoading — the skills and MCP servers of a task's bundles
  (`_process_task`, errand/task_manager.py; `parse_plugin_skills`, `parse_plugin_mcp_servers`,
  `_detect_plugin_root`, plugin_marketplace.py).

  The git repository's skills are parsed on their own, and what raises there raises out of
  the task. The plugins are loaded one behind another; the first that raises ends the
  loading, and what was loaded stands, its own skills too if only its servers raised.

  Proved:
  - `raises_iff`: the plugins that raise.
  - `loadPlugins_stops`: what is loaded up to the first that raises.
  - `bundles_unaffected_iff`: when a task gets of the usable bundles what it would get of them alone.
  - `a_missing_plugin_costs_the_next`: a task that does not.
-/

namespace Errand.Server.PluginLoading

open Errand.Lib Errand.Lib.Precedence Errand.Runner Errand.Server.Skills Errand.Server.SkillDirectories

/-- A plugin, with its install directory, and whether its warm-up is through. -/
structure Scope where
  pluginName : String
  dir : Path
  ready : Bool
  deriving DecidableEq, Repr

section Disk

-- `json.loads`, and the order in which a directory lists its names
variable (t : Disk) (loads : String → Loads) (iterdir : Path → List String)

/-! ## One plugin -/

def manifestPath (root : Path) : Path := root ++ [".claude-plugin", "plugin.json"]

def isRoot (candidate : Path) : Bool :=
  t.isFile (manifestPath candidate) || t.isDir (candidate ++ ["skills"]) || t.isFile (candidate ++ [".mcp.json"])

/-- `_detect_plugin_root`. -/
def detectPluginRoot (candidate : Path) : Option Path :=
  if isRoot t candidate then some candidate
  else if t.isDir candidate then
    match (iterdir candidate).find? fun child => t.isDir (candidate ++ [child]) && isRoot t (candidate ++ [child]) with
    | some child => some (candidate ++ [child])
    | none => some candidate
  else none

def parsePluginSkills (p : Scope) : Option (List ParsedSkill) :=
  (detectPluginRoot t iterdir p.dir).bind fun root => parseSkillsFromDirectory t (root ++ ["skills"])

/-- `mcpServers` of an object, if it is one itself. -/
def mcpServers? (data : List (String × Json)) : Option (List (String × Json)) :=
  match Json.lookup "mcpServers" data with
  | some (.obj servers) => some servers
  | _ => none

/-- The servers of a `plugin.json`, none where it is no JSON or has none. -/
def inlineServers (text : String) : Option (Option (List (String × Json))) :=
  match loads text with
  | .value (.obj data) => some (mcpServers? data)
  | .decodeError => some none
  | _ => none

/-- The servers of a `.mcp.json`. -/
def fileServers (text : String) : Option (List (String × Json)) :=
  match loads text with
  | .value (.obj data) => some ((mcpServers? data).getD data)
  | .value _ => some []
  | .decodeError => some []
  | _ => none

/-- What is made of a file, if it is one. -/
def ofFile {α : Type} (p : Path) (absent : α) (read : String → Option α) : Option α :=
  if t.isFile p then (readFile t p).bind read else some absent

def rootServers (root : Path) : Option (List (String × Json)) :=
  (ofFile t (manifestPath root) none (inlineServers loads)).bind fun inline =>
    match inline with
    | some servers => some servers
    | none => ofFile t (root ++ [".mcp.json"]) [] (fileServers loads)

def parsePluginMcpServers (p : Scope) : Option (List (String × Json)) :=
  (detectPluginRoot t iterdir p.dir).bind (rootServers t loads)

def namespaced (pluginName : String) (servers : List (String × Json)) : List (String × Json) :=
  Dict.ofItems (servers.map fun f => (pluginName ++ "__" ++ f.1, f.2))

def namespacedMcpServers (p : Scope) : Option (List (String × Json)) :=
  (parsePluginMcpServers t loads iterdir p).map (namespaced p.pluginName)

/-! ## All plugins -/

structure Loaded where
  skills : List (String × ParsedSkill)
  servers : List (String × Json)

def Loaded.addSkills (acc : Loaded) (p : Scope) (skills : List ParsedSkill) : Loaded :=
  { acc with skills := acc.skills ++ skills.map fun s => (p.pluginName, s) }

def Loaded.addServers (acc : Loaded) (servers : List (String × Json)) : Loaded :=
  { acc with servers := servers.foldl (fun d f => Dict.set d f.1 f.2) acc.servers }

/-- The loop, up to what it raises. -/
def loadPlugins (acc : Loaded) : List Scope → Loaded
  | [] => acc
  | p :: scopes =>
    if p.ready then
      match parsePluginSkills t iterdir p with
      | none => acc
      | some skills =>
        match namespacedMcpServers t loads iterdir p with
        | none => acc.addSkills p skills
        | some servers => loadPlugins ((acc.addSkills p skills).addServers servers) scopes
    else loadPlugins acc scopes

/-! ## A task -/

structure Bundles where
  db : List DbSkill
  distinct : DistinctNames db
  /-- Where the repository's skills are. -/
  git : Option Path
  system : List (Bool × ParsedSkill)
  profile : Profile
  /-- The user's and the platform's servers. -/
  servers : List (String × Json)
  scopes : List Scope

structure Prepared where
  skills : List Skill
  servers : List (String × Json)

def gitSkills (b : Bundles) : Option (List ParsedSkill) :=
  match b.git with
  | none => some []
  | some base => parseSkillsFromDirectory t base

def packed (b : Bundles) (loaded : Loaded) (git : List ParsedSkill) : Prepared where
  skills := taskSkills ⟨b.db, loaded.skills, git, b.system⟩ b.profile
  servers := loaded.servers.foldl (fun d f => Dict.setDefault d f.1 f.2) b.servers

/-- What `_process_task` puts into the container. -/
def prepare (b : Bundles) : Option Prepared :=
  (gitSkills t b).map fun git => packed b (loadPlugins t loads iterdir ⟨[], []⟩ b.scopes) git

/-! ## The usable bundles -/

def loads? (p : Scope) : Bool :=
  (parsePluginSkills t iterdir p).isSome && (namespacedMcpServers t loads iterdir p).isSome

def usable (p : Scope) : Bool := p.ready && loads? t loads iterdir p

def raises (p : Scope) : Bool := p.ready && !loads? t loads iterdir p

/-- The repository's skills that can be parsed. -/
def usableGit (b : Bundles) : List ParsedSkill :=
  match b.git with
  | none => []
  | some base => (skillDirs t base).filterMap (parseSkill t base)

def usableScopes (b : Bundles) : List Scope := b.scopes.filter (usable t loads iterdir)

/-- What the task would get of the usable ones alone. -/
def alone (b : Bundles) : Prepared :=
  packed b (loadPlugins t loads iterdir ⟨[], []⟩ (usableScopes t loads iterdir b)) (usableGit t b)

theorem detectPluginRoot_none {candidate : Path} :
    detectPluginRoot t iterdir candidate = none ↔ isRoot t candidate = false ∧ t.isDir candidate = false := by
  unfold detectPluginRoot
  split
  · rename_i hroot
    exact iff_of_false nofun fun h => by rw [hroot] at h; cases h.1
  · rename_i hroot
    split
    · rename_i hdir
      refine iff_of_false ?_ fun h => by rw [hdir] at h; cases h.2
      split <;> exact nofun
    · rename_i hdir
      exact iff_of_true rfl ⟨by simpa using hroot, by simpa using hdir⟩

/-- A plugin raises whose directory is missing, a file of whose skills is no text, or whose
    servers cannot be read. -/
theorem raises_iff (p : Scope) :
    raises t loads iterdir p = true ↔ p.ready = true ∧
      ((isRoot t p.dir = false ∧ t.isDir p.dir = false) ∨
        ∃ root, detectPluginRoot t iterdir p.dir = some root ∧
          ((∃ entry ∈ skillDirs t (root ++ ["skills"]), ∃ path ∈ readPaths t (root ++ ["skills"] ++ [entry]),
              ¬ IsText t (root ++ ["skills"] ++ [entry] ++ path)) ∨
            rootServers t loads root = none)) := by
  rw [raises, Bool.and_eq_true, loads?, Bool.not_eq_true', Bool.and_eq_false_iff, ← detectPluginRoot_none t iterdir]
  refine and_congr_right fun _ => ?_
  unfold parsePluginSkills namespacedMcpServers parsePluginMcpServers
  cases detectPluginRoot t iterdir p.dir with
  | none => simp
  | some root =>
    have hskills : parseSkillsFromDirectory t (root ++ ["skills"]) = none ↔
        ∃ entry ∈ skillDirs t (root ++ ["skills"]), ∃ path ∈ readPaths t (root ++ ["skills"] ++ [entry]),
          ¬ IsText t (root ++ ["skills"] ++ [entry] ++ path) := by
      rcases parseSkillsFromDirectory_cases t (root ++ ["skills"]) with ⟨⟨entry, hentry, hnone⟩, heq⟩ | ⟨hall, heq⟩
      · refine iff_of_true heq ⟨entry, hentry, ?_⟩
        by_contra hno
        push Not at hno
        have hsome := (parseSkill_isSome_iff hentry).mpr hno
        rw [hnone] at hsome
        cases hsome
      · rw [heq]
        refine iff_of_false nofun ?_
        rintro ⟨entry, hentry, path, hpath, hnot⟩
        exact hnot ((parseSkill_isSome_iff hentry).mp (hall entry hentry) path hpath)
    simp only [Option.bind_some, Option.isSome_map, Option.isSome_eq_false_iff, Option.isNone_iff_eq_none, reduceCtorEq,
      false_or, Option.some.injEq, exists_eq_left', hskills]

/-! ## What is loaded -/

def skillsOf (p : Scope) : List (String × ParsedSkill) :=
  ((parsePluginSkills t iterdir p).getD []).map fun s => (p.pluginName, s)

def serversOf (p : Scope) : List (String × Json) := (namespacedMcpServers t loads iterdir p).getD []

theorem loadPlugins_unready (acc : Loaded) {p : Scope} (h : p.ready = false) (scopes : List Scope) :
    loadPlugins t loads iterdir acc (p :: scopes) = loadPlugins t loads iterdir acc scopes := by
  rw [loadPlugins, h]
  rfl

theorem loadPlugins_usable (acc : Loaded) {p : Scope} (h : usable t loads iterdir p = true) (scopes : List Scope) :
    loadPlugins t loads iterdir acc (p :: scopes) =
      loadPlugins t loads iterdir ⟨acc.skills ++ skillsOf t iterdir p,
        (serversOf t loads iterdir p).foldl (fun d f => Dict.set d f.1 f.2) acc.servers⟩ scopes := by
  simp only [usable, loads?, Bool.and_eq_true] at h
  obtain ⟨hready, hskills, hservers⟩ := h
  obtain ⟨skills, hskills⟩ := Option.isSome_iff_exists.mp hskills
  obtain ⟨servers, hservers⟩ := Option.isSome_iff_exists.mp hservers
  rw [loadPlugins, hready, hskills, hservers, skillsOf, serversOf, hskills, hservers]
  rfl

/-- Of the first that raises, its own skills stand if only its servers raised. -/
theorem loadPlugins_raises (acc : Loaded) {p : Scope} (h : raises t loads iterdir p = true) (scopes : List Scope) :
    loadPlugins t loads iterdir acc (p :: scopes) = ⟨acc.skills ++ skillsOf t iterdir p, acc.servers⟩ := by
  simp only [raises, loads?, Bool.and_eq_true, Bool.not_eq_true', Bool.and_eq_false_iff] at h
  obtain ⟨hready, hnone⟩ := h
  rw [loadPlugins, hready, skillsOf]
  cases hskills : parsePluginSkills t iterdir p with
  | none => simp
  | some skills =>
    rw [hskills] at hnone
    have hservers : namespacedMcpServers t loads iterdir p = none := by simpa using hnone
    rw [hservers]
    rfl

/-- A scope that does not raise is usable, or its warm-up is not through. -/
theorem usable_of_not_raises {p : Scope} (h : raises t loads iterdir p = false) :
    p.ready = false ∨ usable t loads iterdir p = true := by
  unfold raises at h
  unfold usable
  cases hready : p.ready with
  | false => exact .inl rfl
  | true =>
    rw [hready] at h
    exact .inr (by simpa using h)

/-- Scopes in front of which none raises are loaded, and what follows behind them. -/
theorem loadPlugins_append (acc : Loaded) {pre : List Scope} (h : ∀ p ∈ pre, raises t loads iterdir p = false)
    (scopes : List Scope) :
    loadPlugins t loads iterdir acc (pre ++ scopes) =
      loadPlugins t loads iterdir
        ⟨acc.skills ++ (pre.filter (usable t loads iterdir)).flatMap (skillsOf t iterdir),
          ((pre.filter (usable t loads iterdir)).flatMap (serversOf t loads iterdir)).foldl
            (fun d f => Dict.set d f.1 f.2) acc.servers⟩ scopes := by
  induction pre generalizing acc with
  | nil => simp
  | cons p pre ih =>
    have hrest := fun q hq => h q (List.mem_cons_of_mem p hq)
    rw [List.cons_append]
    rcases usable_of_not_raises t loads iterdir (h p List.mem_cons_self) with hready | husable
    · have hnot : usable t loads iterdir p = false := by rw [usable, hready, Bool.false_and]
      rw [loadPlugins_unready t loads iterdir acc hready, ih acc hrest, List.filter_cons_of_neg (by simp [hnot])]
    · rw [loadPlugins_usable t loads iterdir acc husable, ih _ hrest, List.filter_cons_of_pos husable]
      simp [List.flatMap_cons, List.foldl_append]

/-- What scopes give of which none raises. -/
theorem loadPlugins_all {scopes : List Scope} (h : ∀ p ∈ scopes, raises t loads iterdir p = false) :
    loadPlugins t loads iterdir ⟨[], []⟩ scopes =
      ⟨(scopes.filter (usable t loads iterdir)).flatMap (skillsOf t iterdir),
        Dict.ofItems ((scopes.filter (usable t loads iterdir)).flatMap (serversOf t loads iterdir))⟩ := by
  have happ := loadPlugins_append t loads iterdir ⟨[], []⟩ h []
  rw [List.append_nil, List.nil_append] at happ
  rw [happ]
  rfl

/-- What scopes give of which one raises. -/
theorem loadPlugins_stops {pre : List Scope} (h : ∀ p ∈ pre, raises t loads iterdir p = false) {bad : Scope}
    (hbad : raises t loads iterdir bad = true) (post : List Scope) :
    loadPlugins t loads iterdir ⟨[], []⟩ (pre ++ bad :: post) =
      ⟨(pre.filter (usable t loads iterdir)).flatMap (skillsOf t iterdir) ++ skillsOf t iterdir bad,
        Dict.ofItems ((pre.filter (usable t loads iterdir)).flatMap (serversOf t loads iterdir))⟩ := by
  rw [loadPlugins_append t loads iterdir _ h, loadPlugins_raises t loads iterdir _ hbad, List.nil_append]
  rfl

theorem not_raises_of_usable {p : Scope} (h : usable t loads iterdir p = true) : raises t loads iterdir p = false := by
  simp only [usable, Bool.and_eq_true] at h
  rw [raises, h.2]
  simp

theorem loadPlugins_alone (b : Bundles) :
    loadPlugins t loads iterdir ⟨[], []⟩ (usableScopes t loads iterdir b) =
      ⟨(usableScopes t loads iterdir b).flatMap (skillsOf t iterdir),
        Dict.ofItems ((usableScopes t loads iterdir b).flatMap (serversOf t loads iterdir))⟩ := by
  have hnone : ∀ p ∈ usableScopes t loads iterdir b, raises t loads iterdir p = false :=
    fun p hp => not_raises_of_usable t loads iterdir (List.mem_filter.mp hp).2
  have hself : (usableScopes t loads iterdir b).filter (usable t loads iterdir) = usableScopes t loads iterdir b :=
    List.filter_eq_self.mpr fun p hp => (List.mem_filter.mp hp).2
  rw [loadPlugins_all t loads iterdir hnone, hself]

/-! ## What the task gets -/

def pluginSkills (scopes : List Scope) : List (String × ParsedSkill) :=
  (scopes.filter (usable t loads iterdir)).flatMap (skillsOf t iterdir)

def pluginServers (scopes : List Scope) : List (String × Json) :=
  (scopes.filter (usable t loads iterdir)).flatMap (serversOf t loads iterdir)

/-- The skills of the usable plugins and of the repository. -/
def contributed (b : Bundles) : List Skill :=
  (pluginSkills t loads iterdir b.scopes).map ofPlugin ++ (usableGit t b).map ofGit

/-- The task has all it would have of the usable bundles alone, and of theirs nothing else. -/
structure Kept (b : Bundles) (out : Prepared) : Prop where
  skills : ∀ s ∈ (alone t loads iterdir b).skills, s ∈ out.skills
  contributed : ∀ s ∈ contributed t loads iterdir b, s ∈ out.skills → s ∈ (alone t loads iterdir b).skills
  servers : ∀ n, Dict.get? out.servers n = Dict.get? (alone t loads iterdir b).servers n

def Unaffected (b : Bundles) : Prop := ∃ out, prepare t loads iterdir b = some out ∧ Kept t loads iterdir b out

/-- The skills in front of those of the plugins behind `pre`. -/
def ahead (b : Bundles) (pre : List Scope) : List Skill :=
  b.db.map ofDb ++ (pluginSkills t loads iterdir pre).map ofPlugin

/-- The skills below those of all plugins. -/
def below (b : Bundles) : List Skill := (usableGit t b).map ofGit ++ b.system.map ofSystem

/-- `bad`, the first that raises, stands between `pre` and `post`. -/
structure Harmless (b : Bundles) (pre : List Scope) (bad : Scope) (post : List Scope) : Prop where
  /-- A skill of a plugin behind it that would be packed is the first of its name among those
      it left. -/
  behind : ∀ s ∈ (pluginSkills t loads iterdir post).map ofPlugin, Spared b.profile s →
    (∀ x ∈ ahead t loads iterdir b pre, x.name ≠ s.name) →
    first Skill.name ((pluginSkills t loads iterdir post).map ofPlugin) s.name = some s →
    first Skill.name ((skillsOf t iterdir bad).map ofPlugin) s.name = some s
  /-- Of the name of another that would be packed it left none. -/
  below : ∀ s ∈ below t b, Spared b.profile s → (∀ x ∈ ahead t loads iterdir b pre, x.name ≠ s.name) →
    (∀ x ∈ (pluginSkills t loads iterdir post).map ofPlugin, x.name ≠ s.name) →
    first Skill.name (below t b) s.name = some s → ∀ x ∈ (skillsOf t iterdir bad).map ofPlugin, x.name ≠ s.name
  /-- A server of a plugin behind it has the name of the task's own, or is an earlier plugin's
      too. -/
  servers : ∀ n cfg, Dict.get? b.servers n = none →
    Dict.get? (Dict.ofItems (pluginServers t loads iterdir post)) n = some cfg →
    Dict.get? (Dict.ofItems (pluginServers t loads iterdir pre)) n = some cfg

/-- Each file of the repository's skills is text, and the first plugin that raises, if one does,
    is harmless. -/
def Unharmed (b : Bundles) : Prop :=
  (∀ base, b.git = some base → ∀ entry ∈ skillDirs t base, ∀ p ∈ readPaths t (base ++ [entry]),
      IsText t (base ++ [entry] ++ p)) ∧
    match b.scopes.dropWhile fun p => !raises t loads iterdir p with
    | [] => True
    | bad :: post => Harmless t loads iterdir b (b.scopes.takeWhile fun p => !raises t loads iterdir p) bad post

theorem gitSkills_cases (b : Bundles) :
    (∀ base, b.git = some base → ∀ entry ∈ skillDirs t base, ∀ p ∈ readPaths t (base ++ [entry]),
        IsText t (base ++ [entry] ++ p)) ∧ gitSkills t b = some (usableGit t b) ∨
      ¬ (∀ base, b.git = some base → ∀ entry ∈ skillDirs t base, ∀ p ∈ readPaths t (base ++ [entry]),
        IsText t (base ++ [entry] ++ p)) ∧ gitSkills t b = none := by
  unfold gitSkills usableGit
  cases b.git with
  | none => exact .inl ⟨nofun, rfl⟩
  | some base =>
    rcases parseSkillsFromDirectory_cases t base with ⟨⟨entry, hentry, hnone⟩, heq⟩ | ⟨hall, heq⟩
    · refine .inr ⟨fun h => ?_, heq⟩
      have hsome := (parseSkill_isSome_iff hentry).mpr (h base rfl entry hentry)
      rw [hnone] at hsome
      cases hsome
    · refine .inl ⟨?_, heq⟩
      rintro _ ⟨⟩ entry hentry
      exact (parseSkill_isSome_iff hentry).mp (hall entry hentry)

theorem sources_all (b : Bundles) (pre : List Scope) (more : List (String × ParsedSkill)) :
    (Sources.mk b.db (pluginSkills t loads iterdir pre ++ more) (usableGit t b) b.system).all =
      ahead t loads iterdir b pre ++ (more.map ofPlugin ++ below t b) := by
  simp [Sources.all, Sources.lower, ahead, below]

theorem mem_packed (b : Bundles) (pre : List Scope) (more : List (String × ParsedSkill)) (servers : List (String × Json))
    (s : Skill) :
    s ∈ (packed b ⟨pluginSkills t loads iterdir pre ++ more, servers⟩ (usableGit t b)).skills ↔
      first Skill.name (ahead t loads iterdir b pre ++ (more.map ofPlugin ++ below t b)) s.name = some s ∧
        Spared b.profile s := by
  have hdistinct : DistinctNames
      (Sources.mk b.db (pluginSkills t loads iterdir pre ++ more) (usableGit t b) b.system).db := b.distinct
  have hmem := mem_taskSkills hdistinct b.profile s
  rw [sources_all] at hmem
  exact hmem

theorem plugin_not_below (b : Bundles) (skills : List (String × ParsedSkill)) :
    ∀ x ∈ skills.map ofPlugin, x ∉ below t b := by
  intro x hx hbelow
  obtain ⟨p, -, rfl⟩ := List.mem_map.mp hx
  rcases List.mem_append.mp hbelow with h | h
  · obtain ⟨g, -, heq⟩ := List.mem_map.mp h
    cases heq
  · obtain ⟨g, -, heq⟩ := List.mem_map.mp h
    cases heq

section Split

variable {b : Bundles} {pre post : List Scope} {bad : Scope}

theorem alone_split (hscopes : b.scopes = pre ++ bad :: post) (hbad : raises t loads iterdir bad = true) :
    alone t loads iterdir b =
      packed b ⟨pluginSkills t loads iterdir pre ++ pluginSkills t loads iterdir post,
        Dict.ofItems (pluginServers t loads iterdir pre ++ pluginServers t loads iterdir post)⟩ (usableGit t b) := by
  have hnot : usable t loads iterdir bad = false := by
    cases husable : usable t loads iterdir bad with
    | false => rfl
    | true =>
      rw [not_raises_of_usable t loads iterdir husable] at hbad
      cases hbad
  have hscopes' : usableScopes t loads iterdir b =
      pre.filter (usable t loads iterdir) ++ post.filter (usable t loads iterdir) := by
    rw [usableScopes, hscopes, List.filter_append, List.filter_cons_of_neg (by simp [hnot])]
  rw [alone, loadPlugins_alone, hscopes', List.flatMap_append, List.flatMap_append]
  rfl

/-- The skills the task would get are there exactly if those behind and those below are. -/
theorem skills_iff (servers servers' : List (String × Json)) :
    (∀ s ∈ (packed b ⟨pluginSkills t loads iterdir pre ++ pluginSkills t loads iterdir post, servers⟩ (usableGit t b)).skills,
        s ∈ (packed b ⟨pluginSkills t loads iterdir pre ++ skillsOf t iterdir bad, servers'⟩ (usableGit t b)).skills) ↔
      (∀ s ∈ (pluginSkills t loads iterdir post).map ofPlugin, Spared b.profile s →
        (∀ x ∈ ahead t loads iterdir b pre, x.name ≠ s.name) →
        first Skill.name ((pluginSkills t loads iterdir post).map ofPlugin) s.name = some s →
        first Skill.name ((skillsOf t iterdir bad).map ofPlugin) s.name = some s) ∧
      ∀ s ∈ below t b, Spared b.profile s → (∀ x ∈ ahead t loads iterdir b pre, x.name ≠ s.name) →
        (∀ x ∈ (pluginSkills t loads iterdir post).map ofPlugin, x.name ≠ s.name) →
        first Skill.name (below t b) s.name = some s → ∀ x ∈ (skillsOf t iterdir bad).map ofPlugin, x.name ≠ s.name := by
  rw [← replaced_iff (plugin_not_below t b _) (plugin_not_below t b _)]
  simp only [mem_packed]
  constructor
  · intro h s hspared hfirst
    exact (h s ⟨hfirst, hspared⟩).1
  · intro h s hs
    exact ⟨h s hs.2 hs.1, hs.2⟩

theorem lower_id {s : Skill} (hs : s ∈ (pluginSkills t loads iterdir post).map ofPlugin ++ below t b) : s.id = none := by
  simp only [below, List.mem_append, List.mem_map] at hs
  rcases hs with ⟨_, _, rfl⟩ | ⟨_, _, rfl⟩ | ⟨_, _, rfl⟩ <;> rfl

/-- Where the filter spares a skill of a plugin or of the repository it spares all without an id. -/
theorem spared_of_bare {profile : Profile} {s u : Skill} (hs : s.id = none) (hexempt : s.exempt = false)
    (hspared : Spared profile s) (hu : u.id = none) : Spared profile u := by
  unfold Spared at *
  rw [hs, hexempt] at hspared
  rw [hu]
  cases hids : profile.skillIds with
  | none => trivial
  | some ids =>
    rw [hids] at hspared
    exact .inl (hspared.resolve_right nofun)

/-- What is packed of the usable bundles' skills would be without the others. -/
theorem contributed_kept (hscopes : b.scopes = pre ++ bad :: post) (hbad : raises t loads iterdir bad = true)
    {servers : List (String × Json)} {out : List Skill}
    (hout : out = (packed b ⟨pluginSkills t loads iterdir pre ++ skillsOf t iterdir bad, servers⟩ (usableGit t b)).skills)
    (hkept : ∀ s ∈ (alone t loads iterdir b).skills, s ∈ out) :
    ∀ s ∈ contributed t loads iterdir b, s ∈ out → s ∈ (alone t loads iterdir b).skills := by
  intro s hs hmem
  have hbare : s.id = none ∧ s.exempt = false := by
    simp only [contributed, List.mem_append, List.mem_map] at hs
    rcases hs with ⟨_, _, rfl⟩ | ⟨_, _, rfl⟩ <;> exact ⟨rfl, rfl⟩
  have hmemOut := hmem
  rw [hout, mem_packed] at hmemOut
  obtain ⟨hfirst, hspared⟩ := hmemOut
  have hall : s ∈ ahead t loads iterdir b pre ++ ((pluginSkills t loads iterdir post).map ofPlugin ++ below t b) := by
    have hnot : usable t loads iterdir bad = false := by
      cases husable : usable t loads iterdir bad with
      | false => rfl
      | true =>
        rw [not_raises_of_usable t loads iterdir husable] at hbad
        cases hbad
    have hsplit : pluginSkills t loads iterdir b.scopes =
        pluginSkills t loads iterdir pre ++ pluginSkills t loads iterdir post := by
      rw [pluginSkills, hscopes, List.filter_append, List.filter_cons_of_neg (by simp [hnot]), List.flatMap_append]
      rfl
    rw [contributed, hsplit] at hs
    simp only [ahead, below, List.map_append, List.mem_append] at hs ⊢
    tauto
  obtain ⟨u, hu⟩ := first_of_mem Skill.name hall
  have hname := first_key hu
  rw [alone_split t loads iterdir hscopes hbad, mem_packed]
  cases hahead : first Skill.name (ahead t loads iterdir b pre) s.name with
  | some v =>
    refine ⟨?_, hspared⟩
    rw [first_append, hahead] at hfirst ⊢
    exact hfirst
  | none =>
    have hlater := hu
    rw [first_append, hahead, Option.none_or] at hlater
    have huSpared := spared_of_bare hbare.1 hbare.2 hspared (lower_id t loads iterdir (first_mem hlater))
    have huAlone : u ∈ (alone t loads iterdir b).skills := by
      rw [alone_split t loads iterdir hscopes hbad, mem_packed, hname]
      exact ⟨hu, huSpared⟩
    have huOut := hkept u huAlone
    rw [hout, mem_packed, hname, hfirst] at huOut
    rw [← Option.some.inj huOut.1] at hu
    exact ⟨hu, hspared⟩

theorem servers_iff (hscopes : b.scopes = pre ++ bad :: post) (hbad : raises t loads iterdir bad = true)
    (skills : List (String × ParsedSkill)) :
    (∀ n, Dict.get? (packed b ⟨skills, Dict.ofItems (pluginServers t loads iterdir pre)⟩ (usableGit t b)).servers n =
        Dict.get? (alone t loads iterdir b).servers n) ↔
      ∀ n cfg, Dict.get? b.servers n = none →
        Dict.get? (Dict.ofItems (pluginServers t loads iterdir post)) n = some cfg →
        Dict.get? (Dict.ofItems (pluginServers t loads iterdir pre)) n = some cfg := by
  rw [alone_split t loads iterdir hscopes hbad]
  simp only [packed, Dict.get?_foldl_setDefault, Dict.get?_ofItems_append]
  refine forall_congr' fun n => ?_
  cases Dict.get? b.servers n with
  | some cfg => simp
  | none =>
    cases Dict.get? (Dict.ofItems (pluginServers t loads iterdir post)) n with
    | none => simp
    | some cfg => simp

theorem kept_iff (hscopes : b.scopes = pre ++ bad :: post) (hbad : raises t loads iterdir bad = true) :
    Kept t loads iterdir b (packed b ⟨pluginSkills t loads iterdir pre ++ skillsOf t iterdir bad,
        Dict.ofItems (pluginServers t loads iterdir pre)⟩ (usableGit t b)) ↔
      Harmless t loads iterdir b pre bad post := by
  have hskills := @skills_iff t loads iterdir b pre post bad
    (Dict.ofItems (pluginServers t loads iterdir pre ++ pluginServers t loads iterdir post))
    (Dict.ofItems (pluginServers t loads iterdir pre))
  rw [← alone_split t loads iterdir hscopes hbad] at hskills
  have hservers := servers_iff t loads iterdir hscopes hbad
    (pluginSkills t loads iterdir pre ++ skillsOf t iterdir bad)
  constructor
  · intro h
    obtain ⟨hbehind, hbelow⟩ := hskills.mp h.skills
    exact ⟨hbehind, hbelow, hservers.mp h.servers⟩
  · intro h
    have hkept := hskills.mpr ⟨h.behind, h.below⟩
    exact ⟨hkept, contributed_kept t loads iterdir hscopes hbad rfl hkept, hservers.mpr h.servers⟩

end Split

/-- Where none raises the task gets what it would get of the usable ones. -/
theorem kept_all {b : Bundles} (h : ∀ p ∈ b.scopes, raises t loads iterdir p = false) :
    Kept t loads iterdir b (packed b (loadPlugins t loads iterdir ⟨[], []⟩ b.scopes) (usableGit t b)) := by
  have heq : packed b (loadPlugins t loads iterdir ⟨[], []⟩ b.scopes) (usableGit t b) = alone t loads iterdir b := by
    rw [loadPlugins_all t loads iterdir h, alone, loadPlugins_alone]
    rfl
  rw [heq]
  exact ⟨fun _ hs => hs, fun _ _ hs => hs, fun _ => rfl⟩

/-- A task gets of the usable bundles what it would get of them alone exactly if all of the
    repository is text and the first plugin that raises is harmless. -/
theorem bundles_unaffected_iff (b : Bundles) : Unaffected t loads iterdir b ↔ Unharmed t loads iterdir b := by
  unfold Unaffected Unharmed prepare
  rcases gitSkills_cases t b with ⟨htext, hgit⟩ | ⟨htext, hgit⟩
  · rw [hgit, and_iff_right htext]
    simp only [Option.map_some, Option.some.injEq, exists_eq_left']
    have hsplit := List.takeWhile_append_dropWhile (p := fun p => !raises t loads iterdir p) (l := b.scopes)
    have hpre : ∀ p ∈ b.scopes.takeWhile (fun p => !raises t loads iterdir p), raises t loads iterdir p = false :=
      fun p hp => by simpa using List.mem_takeWhile_imp hp
    cases hrest : b.scopes.dropWhile fun p => !raises t loads iterdir p with
    | nil =>
      rw [hrest, List.append_nil] at hsplit
      rw [hsplit] at hpre
      exact iff_of_true (kept_all t loads iterdir hpre) trivial
    | cons bad post =>
      have hbad : raises t loads iterdir bad = true := by
        have hne : b.scopes.dropWhile (fun p => !raises t loads iterdir p) ≠ [] := by
          rw [hrest]
          exact nofun
        have hhead := List.head_dropWhile_not (fun p => !raises t loads iterdir p) hne
        simpa [hrest] using hhead
      rw [hrest] at hsplit
      have hloaded := loadPlugins_stops t loads iterdir hpre hbad post
      rw [hsplit] at hloaded
      rw [hloaded]
      exact kept_iff t loads iterdir hsplit.symm hbad
  · rw [hgit]
    exact iff_of_false (fun ⟨_, h, _⟩ => nomatch h) fun h => htext h.1

end Disk

/-- Of two plugins only the second is on disk, with one skill. -/
def betaTree : Disk :=
  FileTree.ofNodes
    [(["beta"], .dir), (["beta", "skills"], .dir), (["beta", "skills", "post"], .dir),
      (["beta", "skills", "post", "SKILL.md"], .file [120])] (by decide)

def twoPlugins : Bundles where
  db := []
  distinct := List.nodup_nil
  git := none
  system := []
  profile := ⟨none, true⟩
  servers := []
  scopes := [⟨"alpha", ["alpha"], true⟩, ⟨"beta", ["beta"], true⟩]

def noJson : String → Loads := fun _ => .decodeError

theorem a_missing_plugin_costs_the_next :
    (prepare betaTree noJson betaTree.listdir twoPlugins).map (·.skills.map Skill.name) = some [] ∧
      (alone betaTree noJson betaTree.listdir twoPlugins).skills.map Skill.name = ["post"] := by decide

end Errand.Server.PluginLoading

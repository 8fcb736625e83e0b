import Errand.Lib.Search
import Errand.Runner.Python
import Mathlib.Data.Finset.Basic

/-
  Errand.Runner.ToolRegistry — which tools a task's model sees (task-runner/tool_registry.py):
  the hot list, the catalog, the filter over the enabled tools, and the two native tools that
  change the run's context, `discover_tools` and `submit_result`.

  The servers are what they list, or nothing where listing fails; a skill's file is read, or
  not. The administrative tools are left out of what is known and are never discovered; the
  hot list is taken as it is given.

  Proved:
  - `buildToolCatalog_known`: what is known is what some server lists, but for these tools.
  - `discoverTools_enabled`: discovery enables known tools only.
-/

namespace Errand.Runner.ToolRegistry

open Errand.Lib

def defaultHotTools : Finset String := {"web_search", "fetch_url", "retain", "recall"}

def excludedCatalogTools : Finset String :=
  {"clone_task_profile", "delete_task_profile", "search_tasks", "start_eval_run", "record_eval_result",
    "finish_eval_run", "get_eval_run"}

structure SubmittedResult where
  status : String
  result : String
  questions : List String
  deriving DecidableEq, Repr

structure ToolVisibilityContext where
  enabledTools : Finset String
  allKnownTools : Finset String
  alwaysOnTools : Finset String
  /-- The path of each skill's SKILL.md. -/
  installedSkills : List (String × String)
  submittedResult : Option SubmittedResult

/-- The tools that are always visible, from HOT_TOOLS. -/
def getHotList (raw : String) : Finset String :=
  if (PyStr.strip raw.toList).isEmpty then defaultHotTools
  else
    (((raw.toList.splitOn ',').map PyStr.strip).filter fun name => !name.isEmpty).map String.ofList |>.toFinset

def toolFilter (ctx : ToolVisibilityContext) (name : String) : Bool := decide (name ∈ ctx.enabledTools)

/-! ## The catalog -/

structure Tool where
  name : String
  description : Option String

structure McpServer where
  name : String
  /-- `list_tools`, none if it raises. -/
  tools : Option (List Tool)

def truncateAt (maxLength : Nat) (s : List Char) : List Char :=
  if s.length ≤ maxLength then s else s.take maxLength ++ "...".toList

/-- The first sentence, or the first hundred characters. -/
def truncateDescription (desc : List Char) : List Char :=
  match Search.splitFirst ". ".toList desc with
  | some (sentence, _) => truncateAt 100 (sentence ++ ['.'])
  | none =>
    match Search.splitFirst ".\n".toList desc with
    | some (sentence, _) => truncateAt 100 (sentence ++ ['.'])
    | none => truncateAt 100 desc

def xmlEscapeChar (c : Char) : List Char :=
  if c = '&' then "&amp;".toList
  else if c = '>' then "&gt;".toList
  else if c = '<' then "&lt;".toList
  else [c]

def xmlEscape (s : List Char) : String := String.ofList (s.flatMap xmlEscapeChar)

def visibleTools (server : McpServer) : List Tool :=
  (server.tools.getD []).filter fun t => !decide (t.name ∈ excludedCatalogTools)

def deferredLine (t : Tool) : String :=
  "- " ++ xmlEscape t.name.toList ++ ": " ++ xmlEscape (truncateDescription (t.description.getD "").toList)

def catalogHeader : String :=
  "IMPORTANT: The tools listed below are NOT yet enabled. You MUST call discover_tools with the tool name(s) " ++
    "BEFORE you can use them. Calling a tool without discovering it first will cause an error. " ++
    "Discover all tools you need in a single call."

/-- The catalog of the tools that are not hot, and all that are known. -/
def buildToolCatalog (servers : List McpServer) (hotList : Finset String) : String × Finset String :=
  let visible := servers.flatMap visibleTools
  let allKnownTools := (visible.map (·.name)).toFinset
  let deferredLines := (visible.filter fun t => !decide (t.name ∈ hotList)).map deferredLine
  if deferredLines.isEmpty then ("", allKnownTools)
  else
    ("<available_mcp_tools>\n" ++ catalogHeader ++ "\n" ++ "\n".intercalate deferredLines ++ "\n</available_mcp_tools>",
      allKnownTools)

theorem buildToolCatalog_known (servers : List McpServer) (hotList : Finset String) (name : String) :
    name ∈ (buildToolCatalog servers hotList).2 ↔
      name ∉ excludedCatalogTools ∧ ∃ server ∈ servers, ∃ tools, server.tools = some tools ∧ ∃ t ∈ tools, t.name = name := by
  have hknown : (buildToolCatalog servers hotList).2 = ((servers.flatMap visibleTools).map (·.name)).toFinset := by
    unfold buildToolCatalog
    simp only
    split <;> rfl
  rw [hknown, List.mem_toFinset, List.mem_map]
  constructor
  · intro h
    obtain ⟨t, ht, rfl⟩ := h
    obtain ⟨server, hserver, ht⟩ := List.mem_flatMap.mp ht
    unfold visibleTools at ht
    simp only [List.mem_filter, Bool.not_eq_true', decide_eq_false_iff_not] at ht
    obtain ⟨ht, hno⟩ := ht
    cases htools : server.tools with
    | none =>
      rw [htools] at ht
      cases ht
    | some tools =>
      rw [htools] at ht
      exact ⟨hno, server, hserver, tools, htools, t, ht, rfl⟩
  · intro h
    obtain ⟨hno, server, hserver, tools, htools, t, ht, rfl⟩ := h
    refine ⟨t, List.mem_flatMap.mpr ⟨server, hserver, ?_⟩, rfl⟩
    unfold visibleTools
    rw [htools]
    simp [ht, hno]

/-! ## Discovery -/

/-- What `discover_tools` made of the names. -/
structure Discovery where
  enabled : List String
  alreadyOn : List String
  /-- Name, path and content. -/
  loadedSkills : List (String × String × String)
  notFound : List String

def Discovery.append (a b : Discovery) : Discovery :=
  ⟨a.enabled ++ b.enabled, a.alreadyOn ++ b.alreadyOn, a.loadedSkills ++ b.loadedSkills, a.notFound ++ b.notFound⟩

def ToolVisibilityContext.enable (ctx : ToolVisibilityContext) (name : String) : ToolVisibilityContext :=
  { ctx with enabledTools := insert name ctx.enabledTools }

/-- One name. `read` gives the content of a file, none if it cannot be read. -/
def discoverTool (read : String → Option String) (ctx : ToolVisibilityContext) (name : String) :
    ToolVisibilityContext × Discovery :=
  if name ∈ excludedCatalogTools then (ctx, ⟨[], [], [], [name]⟩)
  else if name ∈ ctx.alwaysOnTools then (ctx, ⟨[], [name], [], []⟩)
  else if name ∈ ctx.allKnownTools then (ctx.enable name, ⟨[name], [], [], []⟩)
  else
    match ctx.installedSkills.find? (·.1 = name) with
    | some (_, path) =>
      match read path with
      | some content => (ctx, ⟨[], [], [(name, path, content)], []⟩)
      | none => (ctx, ⟨[], [], [], [name]⟩)
    | none => (ctx, ⟨[], [], [], [name]⟩)

def discoverNames (read : String → Option String) (ctx : ToolVisibilityContext) :
    List String → ToolVisibilityContext × Discovery
  | [] => (ctx, ⟨[], [], [], []⟩)
  | name :: names =>
    let (ctx, found) := discoverTool read ctx name
    let (ctx, rest) := discoverNames read ctx names
    (ctx, found.append rest)

def discoveryMessage (d : Discovery) : String :=
  let skillBlock := fun (skill : String × String × String) =>
    "--- " ++ skill.2.1 ++ " ---\n" ++ skill.2.2 ++ "\n--- end skill ---"
  let parts :=
    (if d.enabled.isEmpty then [] else ["Enabled: " ++ ", ".intercalate d.enabled]) ++
    (if d.alreadyOn.isEmpty then [] else ["Already enabled (always-on): " ++ ", ".intercalate d.alreadyOn]) ++
    (if d.loadedSkills.isEmpty then []
      else ["Loaded skill: " ++ ", ".intercalate (d.loadedSkills.map (·.1)) ++ "\n\n" ++
        "\n\n".intercalate (d.loadedSkills.map skillBlock)]) ++
    (if d.notFound.isEmpty then [] else ["Not found: " ++ ", ".intercalate d.notFound])
  if parts.isEmpty then "No tools specified." else ". ".intercalate parts

def discoverTools (read : String → Option String) (ctx : ToolVisibilityContext) (toolNames : List String) :
    ToolVisibilityContext × String :=
  let (ctx, d) := discoverNames read ctx toolNames
  (ctx, discoveryMessage d)

/-- What a step may make of a context: known tools are enabled besides, the rest is kept. -/
structure Enables (ctx ctx' : ToolVisibilityContext) : Prop where
  grows : ctx.enabledTools ⊆ ctx'.enabledTools
  known : ctx'.enabledTools ⊆ ctx.enabledTools ∪ ctx.allKnownTools
  allKnown : ctx'.allKnownTools = ctx.allKnownTools

theorem Enables.refl (ctx : ToolVisibilityContext) : Enables ctx ctx :=
  ⟨Finset.Subset.refl _, Finset.subset_union_left, rfl⟩

theorem Enables.trans {a b c : ToolVisibilityContext} (hab : Enables a b) (hbc : Enables b c) : Enables a c := by
  refine ⟨hab.grows.trans hbc.grows, ?_, hbc.allKnown.trans hab.allKnown⟩
  intro name hname
  rcases Finset.mem_union.mp (hbc.known hname) with h | h
  · exact hab.known h
  · rw [hab.allKnown] at h
    exact Finset.mem_union_right _ h

theorem Enables.enable {ctx : ToolVisibilityContext} {name : String} (h : name ∈ ctx.allKnownTools) :
    Enables ctx (ctx.enable name) := by
  refine ⟨Finset.subset_insert _ _, ?_, rfl⟩
  intro x hx
  rcases Finset.mem_insert.mp hx with rfl | hx
  · exact Finset.mem_union_right _ h
  · exact Finset.mem_union_left _ hx

theorem discoverTool_enabled (read : String → Option String) (ctx : ToolVisibilityContext) (name : String) :
    Enables ctx (discoverTool read ctx name).1 := by
  unfold discoverTool
  split
  · exact .refl ctx
  · split
    · exact .refl ctx
    · split
      · rename_i h
        exact .enable h
      · split
        · split
          · exact .refl ctx
          · exact .refl ctx
        · exact .refl ctx

theorem discoverNames_enabled (read : String → Option String) (names : List String) :
    ∀ ctx, Enables ctx (discoverNames read ctx names).1 := by
  induction names with
  | nil => exact .refl
  | cons name names ih =>
    intro ctx
    exact (discoverTool_enabled read ctx name).trans (ih _)

theorem discoverTools_enabled (read : String → Option String) (ctx : ToolVisibilityContext) (toolNames : List String) :
    Enables ctx (discoverTools read ctx toolNames).1 := discoverNames_enabled read toolNames ctx

/-! ## The submitted result -/

/-- `str` of each item. -/
def strItem (py : Python) : Json → String
  | .str s => s
  | j => py.str j

/-- Whatever arrived for `questions`, as a list of strings. -/
def normaliseQuestions (py : Python) : Json → Except PyError (List String)
  | .null => .ok []
  | .str value =>
    match py.loads value with
    | .value (.arr items) => .ok (items.map (strItem py))
    | .value _ => .ok [value]
    | .decodeError => .ok [value]
    | .valueError => .ok [value]
    | .recursionError => .error .recursionError
  | .arr items => .ok (items.map (strItem py))
  | value => .ok [py.str value]

/-- `submit_result`, with the questions as they come out of the argument's validation. -/
def submitResult (py : Python) (ctx : ToolVisibilityContext) (result status : String) (questions : List String) :
    Except PyError (ToolVisibilityContext × String) :=
  if status ≠ "completed" ∧ status ≠ "needs_input" then
    .ok (ctx, "Invalid status '" ++ status ++ "'. Must be 'completed' or 'needs_input'.")
  else
    (normaliseQuestions py (.arr (questions.map .str))).map fun questions =>
      ({ ctx with submittedResult := some ⟨status, result, questions⟩ },
        "Result submitted successfully. You may now stop.")

end Errand.Runner.ToolRegistry

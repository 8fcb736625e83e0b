import Errand.Lib.Machine
import Errand.Runner.Output
import Mathlib.Algebra.BigOperators.Group.Finset.Basic
import Mathlib.Algebra.Order.BigOperators.Group.Finset

/-
  Errand.Runner.Attempts — the attempt loop of a run (`main`, `_resolve_recovery_target`;
  task-runner/main.py).

  An attempt runs the agent: its model discovers tools and submits results, and then the
  attempt ends. What it raises, its final text and whether it called tools are open. Some
  ends are not counted: the nudge, a tool name with a Harmony suffix that is normalised,
  a known tool that is enabled. A transient error is counted, and every other end exits.

  The nudge comes once, and a pair of names is normalised a number of times; the loop
  relies on there being finitely many tools. But a tool may be enabled already, and the
  names with suffixes are not known beforehand.

  Proved:
  - `excluded_invisible_iff`: the filter hides the administrative tools in every reachable
    state exactly if the hot list names none; `a_hot_tool_is_visible`.
  - `attempts_bounded_iff`: the attempts are at most the limit, one, the known tools and,
    for each name with a suffix, the cap, besides those that enable a tool once more; so
    they are bounded exactly if these and the names are. `the_loop_never_ends`.
-/

namespace Errand.Runner.Attempts

open Errand.Lib
open Errand.Runner.ToolRegistry
open Errand.Runner.Output

def maxAgentRetries : Nat := 3

def harmonyRecoveryCapPerPair : Nat := 3

def executeCommandAliases : List String := ["run_command", "bash", "shell", "sh", "executescript"]

/-! ## The tool an error names -/

/-- `name.split("<|", 1)[0]`. -/
def normalizeHarmonyToolName (name : String) : String :=
  match Search.splitFirst "<|".toList name.toList with
  | some (bare, _) => String.ofList bare
  | none => name

def resolveRecoveryTarget (failingName : String) (allKnownTools : Finset String) : Option String :=
  if failingName.isEmpty then none
  else
    let normalized := normalizeHarmonyToolName failingName
    if normalized = failingName then none
    else if normalized ∈ allKnownTools ∨ normalized ∈ executeCommandAliases ∨ normalized = "execute_command" then
      some normalized
    else none

def isNonSpace (c : Char) : Bool := !PyStr.isSpace c

/-- What a search for "Tool (\S+) not found in agent" captures. -/
def toolNotFound : List Char → Option (List Char)
  | [] => none
  | c :: s =>
    match "Tool ".toList.isPrefixOf? (c :: s) with
    | some rest =>
      let (name, after) := PyStr.splitRun isNonSpace rest
      if !name.isEmpty && " not found in agent".toList.isPrefixOf after then some name else toolNotFound s
    | none => toolNotFound s

/-! ## The loop -/

inductive Exit where
  | ok (output : List Char)
  | failed
  deriving DecidableEq, Repr

/-- `attempt` is what it is at the head of the loop: the attempts that were counted. -/
structure State where
  ctx : ToolVisibilityContext
  attempt : Nat
  nudgeAttempted : Bool
  harmonyRecoveryCounts : String × String → Nat
  exited : Option Exit

/-- How an attempt ends. -/
inductive Outcome where
  | finished (rawText : List Char) (toolCallItems : Bool)
  | stalled
  /-- A ModelBehaviorError, by its text. -/
  | modelBehavior (message : List Char)
  | raised (transient : Bool)

inductive Event where
  | discover (toolNames : List String) (read : String → Option String)
  | submit (result status : String) (questions : List String)
  | ended (o : Outcome)

structure Setup where
  py : Python
  hotTools : String
  servers : List McpServer
  installedSkills : List (String × String)

namespace Setup

variable (P : Setup)

def nativeTools : Finset String :=
  ({"execute_command", "write_file", "edit_file", "read_file", "discover_tools", "submit_result"} : Finset String) ∪
    executeCommandAliases.toFinset

def hotList : Finset String := getHotList P.hotTools

def allKnownTools : Finset String := (buildToolCatalog P.servers P.hotList).2

def start : State :=
  { ctx := ⟨P.hotList, P.allKnownTools, nativeTools, P.installedSkills, none⟩
    attempt := 0
    nudgeAttempted := false
    harmonyRecoveryCounts := fun _ => 0
    exited := none }

/-- What the loop does at the end of an attempt. -/
inductive Verdict where
  | exit (e : Exit)
  | nudge
  | normalize (name normalized : String)
  | autoEnable (name : String)
  | retry
  deriving DecidableEq

/-- The verdict on a name that is not, or no longer, normalised. -/
def enableOrFail (s : State) (name : String) : Verdict :=
  if name ∈ s.ctx.allKnownTools ∧ name ∉ excludedCatalogTools then .autoEnable name else .exit .failed

def verdict (s : State) : Outcome → Verdict
  | .finished rawText toolCallItems =>
    match extractOutput P.py s.ctx.submittedResult rawText toolCallItems s.nudgeAttempted with
    | (.nudge, _) => .nudge
    | (.output, some output) => .exit (.ok output)
    | _ => .exit .failed
  | .stalled => .exit .failed
  | .modelBehavior message =>
    match toolNotFound message with
    | none => .exit .failed
    | some name =>
      let name := String.ofList name
      match resolveRecoveryTarget name s.ctx.allKnownTools with
      | some normalized =>
        if s.harmonyRecoveryCounts (name, normalized) < harmonyRecoveryCapPerPair then .normalize name normalized
        else enableOrFail s name
      | none => enableOrFail s name
  | .raised transient => if transient && decide (s.attempt + 1 < maxAgentRetries) then .retry else .exit .failed

def apply (s : State) : Verdict → State
  | .exit e => { s with attempt := s.attempt + 1, exited := some e }
  | .nudge => { s with nudgeAttempted := true, ctx := { s.ctx with submittedResult := none } }
  | .normalize name normalized =>
    { s with
      harmonyRecoveryCounts := Function.update s.harmonyRecoveryCounts (name, normalized)
        (s.harmonyRecoveryCounts (name, normalized) + 1)
      ctx := if normalized ∈ s.ctx.allKnownTools then s.ctx.enable normalized else s.ctx }
  | .autoEnable name => { s with ctx := s.ctx.enable name }
  | .retry => { s with attempt := s.attempt + 1 }

def step (s : State) (e : Event) : Option State :=
  if s.exited.isSome || decide (maxAgentRetries ≤ s.attempt) then none
  else
    match e with
    | .discover toolNames read => some { s with ctx := (discoverTools read s.ctx toolNames).1 }
    | .submit result status questions =>
      match submitResult P.py s.ctx result status questions with
      | .ok (ctx, _) => some { s with ctx := ctx }
      | .error _ => some s
    | .ended o => some (apply s (P.verdict s o))

def machine : Machine State Event where
  init s := s = P.start
  step := P.step

/-! ## The verdict on an attempt -/

/-- The name with a suffix that an attempt's error names, if it can be normalised. -/
def suffixedName (known : Finset String) : Outcome → Option String
  | .modelBehavior message =>
    ((toolNotFound message).map String.ofList).filter fun name => (resolveRecoveryTarget name known).isSome
  | _ => none

/-- What speaks for a verdict that keeps the loop going without being counted. -/
def Justified (s : State) (o : Outcome) : Verdict → Prop
  | .exit _ => True
  | .retry => True
  | .nudge => s.nudgeAttempted = false
  | .autoEnable name => name ∈ s.ctx.allKnownTools
  | .normalize name normalized =>
    suffixedName s.ctx.allKnownTools o = some name ∧ normalized = normalizeHarmonyToolName name ∧
      s.harmonyRecoveryCounts (name, normalized) < harmonyRecoveryCapPerPair

variable {P}

theorem resolveRecoveryTarget_eq {name normalized : String} {known : Finset String}
    (h : resolveRecoveryTarget name known = some normalized) : normalized = normalizeHarmonyToolName name := by
  unfold resolveRecoveryTarget at h
  simp only at h
  split at h
  · cases h
  · split at h
    · cases h
    · split at h
      · cases h
        rfl
      · cases h

theorem enableOrFail_justified (s : State) (o : Outcome) (name : String) : Justified s o (enableOrFail s name) := by
  unfold enableOrFail
  split
  · rename_i h
    exact h.1
  · trivial

theorem verdict_justified (s : State) (o : Outcome) : Justified s o (P.verdict s o) := by
  cases o with
  | finished rawText toolCallItems =>
    unfold verdict
    simp only
    split
    · rename_i output hnudge
      exact (extractOutput_nudge (congrArg Prod.fst hnudge)).2.2
    · trivial
    · trivial
  | stalled => trivial
  | modelBehavior message =>
    unfold verdict
    simp only
    split
    · trivial
    · rename_i name hname
      split
      · rename_i normalized hresolve
        split
        · rename_i hcap
          refine ⟨?_, resolveRecoveryTarget_eq hresolve, hcap⟩
          simp [suffixedName, hname, hresolve]
        · exact enableOrFail_justified s _ _
      · exact enableOrFail_justified s _ _
  | raised transient =>
    unfold verdict
    simp only
    split
    · trivial
    · trivial

/-! ## What a step enables -/

theorem submitResult_tools {ctx ctx' : ToolVisibilityContext} {result status message : String} {questions : List String}
    (h : submitResult P.py ctx result status questions = .ok (ctx', message)) :
    ctx'.enabledTools = ctx.enabledTools ∧ ctx'.allKnownTools = ctx.allKnownTools := by
  unfold submitResult at h
  split at h
  · cases h
    exact ⟨rfl, rfl⟩
  · cases hq : normaliseQuestions P.py (.arr (questions.map .str)) with
    | error e =>
      rw [hq] at h
      cases h
    | ok qs =>
      rw [hq] at h
      cases h
      exact ⟨rfl, rfl⟩

theorem apply_enables (s : State) (o : Outcome) : Enables s.ctx (apply s (P.verdict s o)).ctx := by
  have hjust := verdict_justified (P := P) s o
  cases hv : P.verdict s o with
  | exit e => exact .refl _
  | nudge => exact ⟨Finset.Subset.refl _, Finset.subset_union_left, rfl⟩
  | normalize name normalized =>
    show Enables s.ctx (if normalized ∈ s.ctx.allKnownTools then s.ctx.enable normalized else s.ctx)
    split
    · rename_i h
      exact .enable h
    · exact .refl _
  | autoEnable name =>
    rw [hv] at hjust
    exact .enable hjust
  | retry => exact .refl _

theorem step_running {s s' : State} {e : Event} (h : P.step s e = some s') : s.attempt < maxAgentRetries := by
  unfold step at h
  split at h
  · cases h
  · rename_i hrun
    simp only [Bool.or_eq_true, decide_eq_true_eq, not_or, Nat.not_le] at hrun
    exact hrun.2

/-- A step either leaves all but the context, where it enables known tools at most, or
    ends the attempt. -/
theorem step_cases {s s' : State} {e : Event} (h : P.step s e = some s') :
    (∃ ctx, s' = { s with ctx := ctx } ∧ Enables s.ctx ctx ∧ ∀ o, e ≠ .ended o) ∨
    ∃ o, e = .ended o ∧ s' = apply s (P.verdict s o) := by
  unfold step at h
  split at h
  · cases h
  · cases e with
    | discover toolNames read =>
      cases h
      exact .inl ⟨_, rfl, discoverTools_enabled read s.ctx toolNames, by intro o ho; cases ho⟩
    | submit result status questions =>
      left
      simp only at h
      split at h
      · rename_i ctx message hsubmit
        cases h
        obtain ⟨henabled, hknown⟩ := submitResult_tools hsubmit
        refine ⟨ctx, rfl, ⟨?_, ?_, hknown⟩, by intro o ho; cases ho⟩
        · rw [henabled]
        · rw [henabled]
          exact Finset.subset_union_left
      · cases h
        exact ⟨s.ctx, rfl, .refl _, by intro o ho; cases ho⟩
    | ended o =>
      cases h
      exact .inr ⟨o, rfl, rfl⟩

theorem step_enables {s s' : State} {e : Event} (h : P.step s e = some s') : Enables s.ctx s'.ctx := by
  rcases step_cases h with ⟨ctx, rfl, henables, -⟩ | ⟨o, rfl, rfl⟩
  · exact henables
  · exact apply_enables s o

/-- What is enabled in a reachable state is the hot list and known tools. -/
theorem reach_enables {s : State} (h : P.machine.Reach s) : Enables P.start.ctx s.ctx := by
  refine Machine.Reach.inv (P := fun s => Enables P.start.ctx s.ctx) ?_ ?_ h
  · intro s hs
    rw [show s = P.start from hs]
    exact .refl _
  · intro s e s' ih hs
    exact ih.trans (step_enables hs)

end Setup

/-! ## The administrative tools -/

/-- Along every run the filter hides the administrative tools, if and only if HOT_TOOLS
    names none of them. -/
theorem excluded_invisible_iff (P : Setup) :
    (∀ s, P.machine.Reach s → ∀ name ∈ excludedCatalogTools, toolFilter s.ctx name = false) ↔
      Disjoint (getHotList P.hotTools) excludedCatalogTools := by
  rw [Finset.disjoint_right]
  constructor
  · intro h name hname hhot
    have hfilter := h P.start (.init rfl) name hname
    rw [toolFilter, decide_eq_false_iff_not] at hfilter
    exact hfilter hhot
  · intro h s hs name hname
    rw [toolFilter, decide_eq_false_iff_not]
    intro henabled
    rcases Finset.mem_union.mp ((Setup.reach_enables hs).known henabled) with hhot | hknown
    · exact h hname hhot
    · exact ((buildToolCatalog_known P.servers P.hotList name).mp hknown).1 hname

/-- A runner whose parser accepts nothing, and that no server serves. -/
def alone (hotTools : String) : Setup :=
  { py := ⟨fun _ => .decodeError, fun _ => "", fun _ => false, fun _ => false, id⟩
    hotTools := hotTools
    servers := []
    installedSkills := [] }

/-- A hot list may name an administrative tool, and the filter lets it through. -/
theorem a_hot_tool_is_visible :
    ¬ ∀ P : Setup, ∀ s, P.machine.Reach s → ∀ name ∈ excludedCatalogTools, toolFilter s.ctx name = false := by
  intro h
  have hhidden := h (alone "search_tasks") _ (.init rfl) "search_tasks" (by decide)
  have hvisible : toolFilter (alone "search_tasks").start.ctx "search_tasks" = true := by decide
  rw [hvisible] at hhidden
  cases hhidden

/-! ## The number of attempts -/

def isEnded : Event → Bool
  | .ended _ => true
  | _ => false

namespace Setup

variable (P : Setup)

/-- The attempts a run makes. -/
def attempts (es : List Event) : Nat := (P.machine.trace P.start es).countP fun p => isEnded p.2

/-- The attempt ends with a known tool's being enabled that is enabled already. -/
def reenables (s : State) : Event → Bool
  | .ended o =>
    match P.verdict s o with
    | .autoEnable name => decide (name ∈ s.ctx.enabledTools)
    | _ => false
  | _ => false

/-- The attempts of a run that enable a tool once more. -/
def reenabled (es : List Event) : Nat := (P.machine.trace P.start es).countP fun p => P.reenables p.1 p.2

/-- The name with a suffix that an event brings up. -/
def suffixed : Event → Option String
  | .ended o => suffixedName P.allKnownTools o
  | _ => none

/-- The names with a suffix that come up in a run. -/
def suffixedNames (es : List Event) : Finset String :=
  ((P.machine.trace P.start es).filterMap fun p => P.suffixed p.2).toFinset

/-- The attempts that are left, but for those that enable a tool once more, if no name with
    a suffix comes up that is not one of `names`. -/
def budget (names : Finset String) (s : State) : Nat :=
  (maxAgentRetries - s.attempt) + (!s.nudgeAttempted).toNat + (s.ctx.allKnownTools \ s.ctx.enabledTools).card +
    ∑ name ∈ names, (harmonyRecoveryCapPerPair - s.harmonyRecoveryCounts (name, normalizeHarmonyToolName name))

variable {P}

/-- More tools enabled leave fewer to enable. -/
theorem sdiff_card_le {ctx ctx' : ToolVisibilityContext} (h : Enables ctx ctx') :
    (ctx'.allKnownTools \ ctx'.enabledTools).card ≤ (ctx.allKnownTools \ ctx.enabledTools).card := by
  rw [h.allKnown]
  exact Finset.card_le_card (Finset.sdiff_subset_sdiff (Finset.Subset.refl _) h.grows)

theorem sdiff_card_enable {ctx : ToolVisibilityContext} {name : String} (hknown : name ∈ ctx.allKnownTools)
    (hnew : name ∉ ctx.enabledTools) :
    ((ctx.enable name).allKnownTools \ (ctx.enable name).enabledTools).card + 1 ≤
      (ctx.allKnownTools \ ctx.enabledTools).card := by
  apply Nat.succ_le_of_lt
  apply Finset.card_lt_card
  refine Finset.ssubset_iff_of_subset ?_ |>.mpr ⟨name, ?_, ?_⟩
  · exact Finset.sdiff_subset_sdiff (Finset.Subset.refl _) (Finset.subset_insert _ _)
  · exact Finset.mem_sdiff.mpr ⟨hknown, hnew⟩
  · intro hmem
    exact (Finset.mem_sdiff.mp hmem).2 (Finset.mem_insert_self _ _)

/-- Counting one more use of a name that is below the cap leaves one less. -/
theorem counts_update {counts : String × String → Nat} {names : Finset String} {name : String} (hname : name ∈ names)
    (hcap : counts (name, normalizeHarmonyToolName name) < harmonyRecoveryCapPerPair) :
    (∑ x ∈ names, (harmonyRecoveryCapPerPair - Function.update counts (name, normalizeHarmonyToolName name)
        (counts (name, normalizeHarmonyToolName name) + 1) (x, normalizeHarmonyToolName x))) + 1 ≤
      ∑ x ∈ names, (harmonyRecoveryCapPerPair - counts (x, normalizeHarmonyToolName x)) := by
  apply Nat.succ_le_of_lt
  apply Finset.sum_lt_sum
  · intro x hx
    by_cases hxn : x = name
    · subst hxn
      rw [Function.update_self]
      omega
    · rw [Function.update_of_ne (by intro h; exact hxn (Prod.mk.inj h).1)]
  · refine ⟨name, hname, ?_⟩
    rw [Function.update_self]
    omega

/-- Every attempt is paid for, but for those that enable a tool once more. -/
theorem step_budget {names : Finset String} {s s' : State} {e : Event} (hknown : s.ctx.allKnownTools = P.allKnownTools)
    (hnames : ∀ name, P.suffixed e = some name → name ∈ names) (h : P.step s e = some s') :
    budget names s' + (isEnded e).toNat ≤ budget names s + (P.reenables s e).toNat := by
  have hrun := step_running h
  rcases step_cases h with ⟨ctx, rfl, henables, hno⟩ | ⟨o, rfl, rfl⟩
  · have hended : isEnded e = false := by
      cases e with
      | ended o => exact absurd rfl (hno o)
      | _ => rfl
    have hcard := sdiff_card_le henables
    simp only [budget, hended, Bool.toNat_false]
    omega
  · have hjust := verdict_justified (P := P) s o
    have hcard := sdiff_card_le (apply_enables (P := P) s o)
    simp only [isEnded, Bool.toNat_true, reenables]
    cases hv : P.verdict s o with
    | exit e =>
      simp only [budget, apply]
      omega
    | retry =>
      simp only [budget, apply]
      omega
    | nudge =>
      rw [hv] at hjust
      have hnudge : s.nudgeAttempted = false := hjust
      simp only [budget, apply, hnudge, Bool.not_true, Bool.not_false, Bool.toNat_true, Bool.toNat_false]
      omega
    | autoEnable name =>
      rw [hv] at hjust
      by_cases henabled : name ∈ s.ctx.enabledTools
      · have hsame : s.ctx.enable name = s.ctx := by
          unfold ToolVisibilityContext.enable
          rw [Finset.insert_eq_of_mem henabled]
        simp only [budget, apply, hsame, henabled, decide_true, Bool.toNat_true]
        omega
      · have hless := sdiff_card_enable hjust henabled
        simp only [budget, apply, henabled, decide_false, Bool.toNat_false]
        omega
    | normalize name normalized =>
      rw [hv] at hjust hcard
      obtain ⟨hsuffixed, rfl, hcap⟩ := hjust
      rw [hknown] at hsuffixed
      have hcounts := counts_update (hnames name hsuffixed) hcap
      simp only [apply] at hcard
      simp only [budget, apply, Bool.toNat_false]
      omega

theorem start_budget (names : Finset String) :
    budget names P.start ≤ maxAgentRetries + 1 + P.allKnownTools.card + harmonyRecoveryCapPerPair * names.card := by
  have hcard : (P.allKnownTools \ P.hotList).card ≤ P.allKnownTools.card := Finset.card_le_card Finset.sdiff_subset
  have hsum : ∑ _name ∈ names, (harmonyRecoveryCapPerPair - 0) = harmonyRecoveryCapPerPair * names.card := by
    rw [Nat.sub_zero, Finset.sum_const_nat fun _ _ => rfl, Nat.mul_comm]
  simp only [budget, start, hsum, Bool.not_false, Bool.toNat_true]
  omega

theorem attempts_le (es : List Event) :
    P.attempts es ≤ maxAgentRetries + 1 + P.allKnownTools.card + harmonyRecoveryCapPerPair * (P.suffixedNames es).card +
      P.reenabled es := by
  have hpaid := @Machine.countP_trace_le _ _ P.machine
    (fun e => ∀ name, P.suffixed e = some name → name ∈ P.suffixedNames es) (fun s => s.ctx.allKnownTools = P.allKnownTools)
    (budget (P.suffixedNames es)) (fun _ e => isEnded e) P.reenables
    (fun s e s' hknown hnames hstep => ⟨(step_enables hstep).allKnown.trans hknown, step_budget hknown hnames hstep⟩)
    P.start rfl es ?_
  · have hstart := start_budget (P := P) (P.suffixedNames es)
    unfold attempts reenabled
    omega
  · intro p hp name hname
    exact List.mem_toFinset.mpr (List.mem_filterMap.mpr ⟨p, hp, hname⟩)

theorem countP_le_attempts {q : State × Event → Bool} (h : ∀ s e, q (s, e) = true → isEnded e = true) (es : List Event) :
    (P.machine.trace P.start es).countP q ≤ P.attempts es :=
  List.countP_mono_left fun p _ => h p.1 p.2

theorem reenabled_le (es : List Event) : P.reenabled es ≤ P.attempts es := by
  refine P.countP_le_attempts ?_ es
  intro s e hq
  cases e with
  | ended o => rfl
  | _ => cases hq

theorem suffixedNames_le (es : List Event) : (P.suffixedNames es).card ≤ P.attempts es := by
  refine (List.toFinset_card_le _).trans ?_
  rw [List.length_filterMap_eq_countP]
  refine P.countP_le_attempts ?_ es
  intro s e hq
  cases e with
  | ended o => rfl
  | _ => cases hq

end Setup

/-- The attempts of a run are at most the limit, one for the nudge, the known tools, and the
    cap for each name with a suffix, besides those that enable a tool once more. So in any
    set of runs they are bounded exactly if the latter and these names are. -/
theorem attempts_bounded_iff (P : Setup) :
    (∀ es, P.attempts es ≤ maxAgentRetries + 1 + P.allKnownTools.card +
      harmonyRecoveryCapPerPair * (P.suffixedNames es).card + P.reenabled es) ∧
    ∀ runs : Set (List Event), (∃ bound, ∀ es ∈ runs, P.attempts es ≤ bound) ↔
      (∃ bound, ∀ es ∈ runs, P.reenabled es ≤ bound) ∧ ∃ bound, ∀ es ∈ runs, (P.suffixedNames es).card ≤ bound := by
  refine ⟨Setup.attempts_le, ?_⟩
  intro runs
  constructor
  · intro h
    obtain ⟨bound, hbound⟩ := h
    exact ⟨⟨bound, fun es hes => (Setup.reenabled_le es).trans (hbound es hes)⟩,
      ⟨bound, fun es hes => (Setup.suffixedNames_le es).trans (hbound es hes)⟩⟩
  · intro h
    obtain ⟨⟨again, hagain⟩, ⟨names, hnames⟩⟩ := h
    refine ⟨maxAgentRetries + 1 + P.allKnownTools.card + harmonyRecoveryCapPerPair * names + again, ?_⟩
    intro es hes
    have hle := Setup.attempts_le (P := P) es
    have hcap := Nat.mul_le_mul_left harmonyRecoveryCapPerPair (hnames es hes)
    have hre := hagain es hes
    omega

/-- One server with one tool, which is hot. -/
def searchServer : Setup := { alone "search" with servers := [⟨"web", some [⟨"search", none⟩]⟩] }

def searchNotFound : Event := .ended (.modelBehavior "Tool search not found in agent TaskRunner".toList)

/-- An error that names an enabled tool is answered by enabling it, any number of times. -/
theorem the_loop_never_ends : ¬ ∀ P : Setup, ∃ bound, ∀ es, P.attempts es ≤ bound := by
  intro h
  obtain ⟨bound, hbound⟩ := h searchServer
  have hverdict : searchServer.verdict searchServer.start (.modelBehavior "Tool search not found in agent TaskRunner".toList) =
      .autoEnable "search" := by decide
  have henabled : "search" ∈ searchServer.start.ctx.enabledTools := by decide
  have hstep : searchServer.machine.step searchServer.start searchNotFound = some searchServer.start := by
    show some (Setup.apply searchServer.start (searchServer.verdict searchServer.start _)) = _
    rw [hverdict]
    simp only [Setup.apply, ToolVisibilityContext.enable, Finset.insert_eq_of_mem henabled]
  have hle := hbound (List.replicate (bound + 1) searchNotFound)
  rw [Setup.attempts, Machine.trace_loop _ hstep, List.countP_replicate] at hle
  simp only [isEnded, searchNotFound, if_true] at hle
  omega

end Errand.Runner.Attempts

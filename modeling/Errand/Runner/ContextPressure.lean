import Errand.Lib.Crossings
import Errand.Runner.Messages

/-
  Errand.Runner.ContextPressure — what a turn reports of the context it was given: the
  provider's token counts, a `context_pressure` event when a threshold is crossed, and a
  snapshot of what fills the context with it (`_usage_fields`, `on_llm_end`,
  `_emit_context_snapshot`, `_check_context_pressure`, task-runner/main.py).

  The thresholds already crossed are held in one set over the whole run. A count that is
  missing or zero measures nothing. A snapshot may raise, behind the event.

  Proved:
  - `pressure_events_mark_crossings`: over any turns, a turn emits a `context_pressure`
    event exactly if its ratio reaches a threshold that the ratio measured before it was
    below, and then one, which names the highest of them.
-/

namespace Errand.Runner.ContextPressure

open Errand.Lib
open Errand.Runner.Messages

/-- Floating-point numbers: the quotient of two integers, none where it is too large, and
    the number a literal stands for. -/
structure Floats (α : Type) where
  divide : Int → Int → Option α
  literal : Rat → α

structure Setup (α : Type) where
  py : Python
  floats : Floats α
  maxContextTokens : Int

/-- `_context_tracking`. -/
structure Tracking (α : Type) where
  messages : List Json
  crossed : List α

/-- The integers of a response's usage, none for a field that holds no integer. -/
structure Usage where
  inputTokens : Option Int
  outputTokens : Option Int
  totalTokens : Option Int
  cachedTokens : Option Int
  deriving DecidableEq, Repr

structure Snapshot where
  reason : String
  limit : Int
  messageCount : Nat
  topContributors : List Contributor
  inputTokens : Option Int
  estimatedTokens : Nat

inductive Event (α : Type) where
  | llmTurnEnd (usage : Usage)
  | contextPressure (inputTokens limit : Int) (threshold : α)
  | contextSnapshot (s : Snapshot)

/-- What a hook leaves behind: the state, the events it wrote and what it raised. -/
structure Outcome (α : Type) where
  tracking : Tracking α
  events : List (Event α)
  raised : Option PyError

/-- A turn of the model: the messages it was sent and the usage its response reports. -/
structure Turn where
  messages : List Json
  usage : Option Usage

def noUsage : Usage := ⟨none, none, none, none⟩

/-- A usage block of zeros is a report of nothing. -/
def usageFields (usage : Option Usage) : Usage :=
  match usage with
  | none => noUsage
  | some u => if u.inputTokens.getD 0 = 0 then noUsage else u

def resetContextTracking {α : Type} : Tracking α := ⟨[], []⟩

def recordModelInput {α : Type} (t : Tracking α) (messages : List Json) : Tracking α := { t with messages := messages }

namespace Setup

variable {α : Type} [LinearOrder α] (R : Setup α)

def contextPressureThresholds : List α := [R.floats.literal (3 / 4), R.floats.literal (9 / 10)]

def emitContextSnapshot (t : Tracking α) (reason : String) (messages : Option (List Json))
    (inputTokens : Option Int) (estimatedTokens : Option Nat) : Except PyError Snapshot :=
  let messages := messages.getD t.messages
  (contextContributors R.py messages).map fun contributors =>
    ⟨reason, R.maxContextTokens, messages.length, contributors, inputTokens,
      estimatedTokens.getD (estimateTokens messages)⟩

def checkContextPressure (t : Tracking α) (inputTokens : Option Int) : Outcome α :=
  match inputTokens with
  | none => ⟨t, [], none⟩
  | some tokens =>
    if tokens = 0 ∨ R.maxContextTokens ≤ 0 then ⟨t, [], none⟩
    else
      match R.floats.divide tokens R.maxContextTokens with
      | none => ⟨t, [], some .other⟩
      | some ratio =>
        let crossed := forgotten R.contextPressureThresholds ratio t.crossed
        let new := newly R.contextPressureThresholds ratio crossed
        match new.max? with
        | none => ⟨{ t with crossed := crossed }, [], none⟩
        | some threshold =>
          let t := { t with crossed := crossed ++ new }
          let pressure := .contextPressure tokens R.maxContextTokens threshold
          match R.emitContextSnapshot t "threshold_crossed" none (some tokens) none with
          | .error e => ⟨t, [pressure], some e⟩
          | .ok snapshot => ⟨t, [pressure, .contextSnapshot snapshot], none⟩

def onLlmEnd (t : Tracking α) (usage : Option Usage) : Outcome α :=
  let data := usageFields usage
  let checked := R.checkContextPressure t data.inputTokens
  { checked with events := .llmTurnEnd data :: checked.events }

def turn (t : Tracking α) (x : Turn) : Outcome α := R.onLlmEnd (recordModelInput t x.messages) x.usage

/-- The tracking after some turns. A turn that raised has changed it all the same. -/
def tracked : Tracking α → List Turn → Tracking α
  | t, [] => t
  | t, x :: turns => tracked (R.turn t x).tracking turns

/-- What each of some turns wrote. -/
def written : Tracking α → List Turn → List (List (Event α))
  | _, [] => []
  | t, x :: turns => (R.turn t x).events :: written (R.turn t x).tracking turns

/-! ## What is measured -/

/-- The ratio of a count to the limit, none where there is nothing to measure. -/
def ratio (inputTokens : Option Int) : Option α :=
  inputTokens.bind fun tokens =>
    if tokens = 0 ∨ R.maxContextTokens ≤ 0 then none else R.floats.divide tokens R.maxContextTokens

def measurement (x : Turn) : Option α := R.ratio (usageFields x.usage).inputTokens

/-- The last ratio measured in some turns. -/
def lastMeasured (turns : List Turn) : Option α := (turns.filterMap R.measurement).getLast?

/-- The ratio reaches a threshold that the one measured before, if any, was below. -/
structure Crosses (before : List Turn) (x : Turn) (t : α) : Prop where
  threshold : t ∈ R.contextPressureThresholds
  reached : ∃ r, R.measurement x = some r ∧ t ≤ r
  below : ∀ p, R.lastMeasured before = some p → p < t

end Setup

/-- The `context_pressure` events among some. -/
def pressures {α : Type} : List (Event α) → List (Int × Int × α)
  | [] => []
  | .contextPressure inputTokens limit threshold :: events => (inputTokens, limit, threshold) :: pressures events
  | _ :: events => pressures events

theorem lastMeasured_cons {α : Type} {R : Setup α} (x : Turn) (turns : List Turn) (last : Option α) :
    (R.lastMeasured (x :: turns)).or last = (R.lastMeasured turns).or ((R.measurement x).or last) := by
  unfold Setup.lastMeasured
  rw [List.filterMap_cons]
  cases R.measurement x with
  | none => rfl
  | some r =>
    simp only [List.getLast?_cons, Option.some_or]
    cases (turns.filterMap R.measurement).getLast? with
    | none => rfl
    | some p => rfl

/-! ## One turn -/

section Run

variable {α : Type} [LinearOrder α] {R : Setup α}

/-- What a turn does to the set, and which thresholds it reports. -/
inductive Does (R : Setup α) (crossed : List α) (x : Turn) (o : Outcome α) : Prop
  | unmeasured : R.measurement x = none → o.tracking.crossed = crossed → pressures o.events = [] → Does R crossed x o
  | measured {r : α} : R.measurement x = some r →
      o.tracking.crossed = forgotten R.contextPressureThresholds r crossed ++
        newly R.contextPressureThresholds r (forgotten R.contextPressureThresholds r crossed) →
      (∃ tokens, (usageFields x.usage).inputTokens = some tokens ∧
        pressures o.events =
          ((newly R.contextPressureThresholds r (forgotten R.contextPressureThresholds r crossed)).max?.map fun top =>
            (tokens, R.maxContextTokens, top)).toList) → Does R crossed x o

theorem turn_does (t : Tracking α) (x : Turn) : Does R t.crossed x (R.turn t x) := by
  have hm : R.measurement x = R.ratio (usageFields x.usage).inputTokens := rfl
  unfold Setup.turn Setup.onLlmEnd Setup.checkContextPressure recordModelInput
  simp only
  cases hu : (usageFields x.usage).inputTokens with
  | none =>
    rw [hu] at hm
    exact .unmeasured hm rfl rfl
  | some tokens =>
    rw [hu, Setup.ratio, Option.bind_some] at hm
    by_cases hz : tokens = 0 ∨ R.maxContextTokens ≤ 0
    · rw [if_pos hz] at hm
      simp only [if_pos hz]
      exact .unmeasured hm rfl rfl
    · rw [if_neg hz] at hm
      simp only [if_neg hz]
      cases hd : R.floats.divide tokens R.maxContextTokens with
      | none =>
        rw [hd] at hm
        exact .unmeasured hm rfl rfl
      | some r =>
        rw [hd] at hm
        simp only
        split
        · rename_i hnone
          refine .measured hm ?_ ⟨tokens, hu, ?_⟩
          · rw [List.max?_eq_none_iff] at hnone
            rw [hnone, List.append_nil]
          · rw [hnone]
            rfl
        · rename_i top htop
          split
          · exact .measured hm rfl ⟨tokens, hu, by rw [htop]; rfl⟩
          · exact .measured hm rfl ⟨tokens, hu, by rw [htop]; rfl⟩

/-- A turn keeps the set in step with the ratio last measured. -/
theorem turn_past {t : Tracking α} {last : Option α} (h : Past R.contextPressureThresholds last t.crossed) (x : Turn) :
    Past R.contextPressureThresholds ((R.measurement x).or last) (R.turn t x).tracking.crossed := by
  rcases turn_does (R := R) t x with ⟨hm, hc, -⟩ | ⟨hm, hc, -⟩
  · rw [hm, hc]
    exact h
  · rw [hm, hc]
    exact past_measured h _

/-! ## Runs -/

theorem tracked_past {turns : List Turn} {t : Tracking α} {last : Option α}
    (h : Past R.contextPressureThresholds last t.crossed) :
    Past R.contextPressureThresholds ((R.lastMeasured turns).or last) (R.tracked t turns).crossed := by
  induction turns generalizing t last with
  | nil => exact h
  | cons x turns ih =>
    rw [lastMeasured_cons]
    exact ih (turn_past h x)

theorem written_append (t : Tracking α) (before : List Turn) (x : Turn) (after : List Turn) :
    (R.written t (before ++ x :: after))[before.length]? = some (R.turn (R.tracked t before) x).events := by
  induction before generalizing t with
  | nil => rfl
  | cons y before ih => exact ih _

/-- What is newly reached is what the turn crosses. -/
theorem mem_newly_crosses {before : List Turn} {crossed : List α}
    (h : Past R.contextPressureThresholds (R.lastMeasured before) crossed) {x : Turn} {r : α}
    (hm : R.measurement x = some r) (t : α) :
    t ∈ newly R.contextPressureThresholds r (forgotten R.contextPressureThresholds r crossed) ↔
      R.Crosses before x t := by
  rw [mem_newly_iff h]
  constructor
  · intro ht
    exact ⟨ht.1, ⟨r, hm, ht.2.1⟩, ht.2.2⟩
  · intro ht
    obtain ⟨q, hq, hle⟩ := ht.reached
    rw [hm] at hq
    cases hq
    exact ⟨ht.threshold, hle, ht.below⟩

/-- Over any turns, a `context_pressure` event marks an upward crossing: a turn writes one
    exactly if it crosses a threshold, a single one, which names the highest it crosses. -/
theorem pressure_events_mark_crossings (R : Setup α) (before after : List Turn) (x : Turn) :
    ∃ events, (R.written resetContextTracking (before ++ x :: after))[before.length]? = some events ∧
      ((∃ t, R.Crosses before x t) →
        ∃ tokens top, (usageFields x.usage).inputTokens = some tokens ∧ IsGreatest {t | R.Crosses before x t} top ∧
          pressures events = [(tokens, R.maxContextTokens, top)]) ∧
      ((¬ ∃ t, R.Crosses before x t) → pressures events = []) := by
  refine ⟨_, written_append _ before x after, ?_⟩
  have hpast : Past R.contextPressureThresholds (R.lastMeasured before)
      (R.tracked resetContextTracking before).crossed := by
    have h : Past R.contextPressureThresholds ((R.lastMeasured before).or none)
        (R.tracked resetContextTracking before).crossed := tracked_past (past_nothing _)
    rwa [Option.or_none] at h
  rcases turn_does (R := R) (R.tracked resetContextTracking before) x with ⟨hm, -, he⟩ | ⟨hm, -, he⟩
  · refine ⟨fun hc => ?_, fun _ => he⟩
    obtain ⟨t, ht⟩ := hc
    obtain ⟨r, hr, -⟩ := ht.reached
    rw [hm] at hr
    cases hr
  · obtain ⟨tokens, hu, he⟩ := he
    have hnew := mem_newly_crosses hpast hm
    rw [he]
    constructor
    · intro hc
      obtain ⟨t, ht⟩ := hc
      obtain ⟨top, htop⟩ := Option.isSome_iff_exists.mp (List.isSome_max?_of_mem ((hnew t).mpr ht))
      refine ⟨tokens, top, hu, ?_, by rw [htop]; rfl⟩
      have hgreatest := max?_isGreatest htop
      simp only [hnew] at hgreatest
      exact hgreatest
    · intro hno
      have hnil : newly R.contextPressureThresholds _ (forgotten R.contextPressureThresholds _ _) = [] :=
        List.eq_nil_iff_forall_not_mem.mpr fun t ht => hno ⟨t, (hnew t).mp ht⟩
      rw [hnil]
      rfl

end Run

end Errand.Runner.ContextPressure

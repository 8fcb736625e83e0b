import Errand.Lib.JsonExtract
import Errand.Lib.JsonRoundTrip
import Errand.Runner.ToolRegistry

/-
  Errand.Runner.Output — what a run's output is taken from (`extract_output`,
  `extract_json`, `TaskRunnerOutput`; task-runner/main.py).

  A submitted result comes first, then an object the final text holds, then the text itself;
  an empty text after tool calls is worth one nudge. `declared` is the result a run so
  declares, whatever it is written as.

  Proved:
  - `extractOutput_output`: the output is the declared result, written by `json.dumps` or
    `model_dump_json`.
  - `extractOutput_nudge`: a run is nudged only if nothing was submitted, the text is blank
    and it has not been nudged.
-/

namespace Errand.Runner.Output

open Errand.Lib
open Errand.Runner.ToolRegistry

/-- The runner's model of its output: any status. -/
structure TaskRunnerOutput where
  status : String
  result : String
  questions : List String
  deriving DecidableEq, Repr

def strings : List Json → Option (List String)
  | [] => some []
  | .str s :: items => (strings items).map (s :: ·)
  | _ :: _ => none

def questionsField : Option Json → Option (List String)
  | none => some []
  | some (.arr items) => strings items
  | some _ => none

/-- `TaskRunnerOutput(**parsed)`. -/
def validate (parsed : Json) : Option TaskRunnerOutput :=
  match parsed.get? "status", parsed.get? "result", questionsField (parsed.get? "questions") with
  | some (.str status), some (.str result), some questions => some ⟨status, result, questions⟩
  | _, _, _ => none

def toJson (o : TaskRunnerOutput) : Json :=
  .obj [("status", .str o.status), ("result", .str o.result), ("questions", .arr (o.questions.map .str))]

def modelDumpJson (o : TaskRunnerOutput) : List Char := Json.write Json.compact (toJson o)

def acceptParsed (py : Python) (s : List Char) : Option Json :=
  match py.loads (String.ofList s) with
  | .value parsed => if (validate parsed).isSome then some parsed else none
  | _ => none

def extractJson (py : Python) (text : List Char) : Option Json := JsonExtract.extract (acceptParsed py) text

inductive Tag where
  | output
  | nudge
  | emptyFail
  deriving DecidableEq, Repr

def submittedJson (r : SubmittedResult) : Json :=
  .obj [("status", .str r.status), ("result", .str r.result), ("questions", .arr (r.questions.map .str))]

def rawOutput (rawText : List Char) : Json :=
  .obj [("status", .str "completed"), ("result", .str (String.ofList rawText)), ("questions", .arr [])]

/-- `extract_output`; whether some item of the run is the output of a tool call stands for
    the items. -/
def extractOutput (py : Python) (submittedResult : Option SubmittedResult) (rawText : List Char)
    (toolCallItems nudgeAttempted : Bool) : Tag × Option (List Char) :=
  match submittedResult with
  | some r => (.output, some (Json.dumps (submittedJson r)))
  | none =>
    if (PyStr.strip rawText).isEmpty then
      if toolCallItems && !nudgeAttempted then (.nudge, none) else (.emptyFail, none)
    else
      match (extractJson py rawText).bind validate with
      | some o => (.output, some (modelDumpJson o))
      | none => (.output, some (Json.dumps (rawOutput rawText)))

/-- The result a run declares. -/
def declared (py : Python) (submittedResult : Option SubmittedResult) (rawText : List Char) : TaskRunnerOutput :=
  match submittedResult with
  | some r => ⟨r.status, r.result, r.questions⟩
  | none => ((extractJson py rawText).bind validate).getD ⟨"completed", String.ofList rawText, []⟩

/-- The output is the declared result, written in one of two ways. -/
theorem extractOutput_output {py : Python} {submittedResult : Option SubmittedResult} {rawText output : List Char}
    {toolCallItems nudgeAttempted : Bool}
    (h : extractOutput py submittedResult rawText toolCallItems nudgeAttempted = (.output, some output)) :
    ∃ L : Json.Layout, L.OneLine ∧ output = Json.write L (toJson (declared py submittedResult rawText)) := by
  unfold extractOutput at h
  unfold declared
  split at h
  · cases h
    exact ⟨Json.spaced, Json.spaced_oneLine, rfl⟩
  · split at h
    · split at h
      · cases h
      · cases h
    · split at h
      · rename_i o ho
        cases h
        rw [ho]
        exact ⟨Json.compact, Json.compact_oneLine, rfl⟩
      · rename_i hno
        cases h
        rw [hno]
        exact ⟨Json.spaced, Json.spaced_oneLine, rfl⟩

theorem extractOutput_nudge {py : Python} {submittedResult : Option SubmittedResult} {rawText : List Char}
    {toolCallItems nudgeAttempted : Bool}
    (h : (extractOutput py submittedResult rawText toolCallItems nudgeAttempted).1 = .nudge) :
    submittedResult = none ∧ (PyStr.strip rawText).isEmpty = true ∧ nudgeAttempted = false := by
  unfold extractOutput at h
  split at h
  · cases h
  · split at h
    · rename_i hblank
      split at h
      · rename_i hnudge
        simp only [Bool.and_eq_true, Bool.not_eq_true'] at hnudge
        exact ⟨rfl, hblank, hnudge.2⟩
      · cases h
    · split at h
      · cases h
      · cases h

end Errand.Runner.Output

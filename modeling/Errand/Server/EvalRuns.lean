import Errand.Lib.Dict
import Errand.Lib.Json
import Errand.Lib.Machine
import Errand.Lib.PyStr
import Errand.Lib.Search
import Errand.Lib.Slots
import Mathlib.Data.List.Pairwise

/-
  Errand.Server.EvalRuns — evaluation runs, and the calls that fill and close them
  (`start_eval_run`, `record_eval_result`, `finish_eval_run` of `mcp_server.py`).

  A call checks its arguments and reads its run in one step, commits in another what it has
  decided, and answers in a third (a result's after `session.refresh`); it may die before
  each. The commit of a result checks the constraint `uq_eval_results_cell` and the foreign
  keys; the commit of a finish writes the run's row by its id, whatever that row holds by
  then. What `uuid.UUID` reads of a text is open.

  Proved:
  - `closed_throughout_iff`: no result comes after a finish is reported, no run is finished
    twice, and each row is some answered call's, exactly in the runs in which no result is
    committed once a finish of its run is reported, no finish once its run is finished, and
    no call dies between its insert and its answer.
  - `a_result_comes_after_the_finish`: a result whose run was read open is inserted after
    the finish is reported.
  - `two_finishes_succeed`: two finishes that read the run open both write its time.
-/

namespace Errand.Server.EvalRuns

open Errand.Lib

structure EvalRun where
  mode : String
  corpusVersion : String
  errandVersion : String
  judgeModel : String
  driverHost : Option String
  notes : Option String
  finishedAt : Option Int

/-- The values of an `EvalResult`; its id is drawn when it is inserted. -/
structure Values where
  runId : Nat
  workload : String
  model : String
  taskId : Option Nat
  rep : Int
  verdict : String
  score : Option PyFloat
  turns : Option Int
  recoveries : Option Int
  errorEvents : Option Int
  wallSeconds : Option PyFloat
  judgeOutput : Option Json

structure EvalResult where
  id : Nat
  values : Values

/-- The columns of `uq_eval_results_cell`. -/
def Values.cell (v : Values) : Nat × String × String × Int := (v.runId, v.workload, v.model, v.rep)

/-! ## The calls -/

/-- The arguments of `start_eval_run`. -/
structure RunArgs where
  mode : String
  corpusVersion : String
  judgeModel : String
  driverHost : Option String
  notes : Option String

/-- The arguments of `record_eval_result`. -/
structure ResultArgs where
  runId : String
  workload : String
  model : String
  rep : Int
  verdict : String
  taskId : Option String
  score : Option PyFloat
  turns : Option Int
  recoveries : Option Int
  errorEvents : Option Int
  wallSeconds : Option PyFloat
  judgeOutput : Option Json

inductive Call where
  | record (args : ResultArgs)
  | finish (runId : String) (notes : Option String)

/-- `_VALID_VERDICTS`. -/
def validVerdicts : List String := ["pass", "fail", "infra_failure"]

variable (uuid : String → Option Nat)

def startEvalRun (errandVersion : String) (args : RunArgs) : Except String EvalRun :=
  if ["live", "retro"].contains args.mode = false then .error "mode must be 'live' or 'retro'"
  else .ok
    { mode := args.mode
      corpusVersion := args.corpusVersion
      errandVersion := errandVersion
      judgeModel := args.judgeModel
      driverHost := args.driverHost
      notes := args.notes
      finishedAt := none }

def taskUuid (taskId : Option String) : Except String (Option Nat) :=
  match taskId.filter (· ≠ "") with
  | none => .ok none
  | some text =>
    match uuid text with
    | some id => .ok (some id)
    | none => .error s!"invalid task_id '{text}'"

/-- What `record_eval_result` does up to its commit. -/
def recordEvalResult (runs : List (Nat × EvalRun)) (args : ResultArgs) : Except String Values := do
  if validVerdicts.contains args.verdict = false then
    throw "verdict must be one of ['pass', 'fail', 'infra_failure']"
  let runId ← (uuid args.runId).elim (throw s!"invalid run_id '{args.runId}'") pure
  let taskId ← taskUuid uuid args.taskId
  let run ← (Dict.get? runs runId).elim (throw "unknown run_id") pure
  if run.finishedAt.isSome then throw "run is finished; cannot record more results"
  return {
    runId := runId
    workload := args.workload
    model := args.model
    taskId := taskId
    rep := args.rep
    verdict := args.verdict
    score := args.score
    turns := args.turns
    recoveries := args.recoveries
    errorEvents := args.errorEvents
    wallSeconds := args.wallSeconds
    judgeOutput := args.judgeOutput }

/-- What `finish_eval_run` does up to its commit: the run, and the notes if they change. -/
def finishEvalRun (runs : List (Nat × EvalRun)) (runId : String) (notes : Option String) :
    Except String (Nat × Option String) := do
  let id ← (uuid runId).elim (throw s!"invalid run_id '{runId}'") pure
  let run ← (Dict.get? runs id).elim (throw "unknown run_id") pure
  if run.finishedAt.isSome then throw "run is already finished"
  return (id, (notes.filter (· ≠ "")).map fun new =>
    match run.notes.filter (· ≠ "") with
    | some old => s!"{old}\n{new}"
    | none => new)

/-- The answer to an `IntegrityError`, by the text of the error. -/
def integrityError (detail : String) : String :=
  if (Search.splitFirst "uq_eval_results_cell".toList detail.toList).isSome ||
      (Search.splitFirst "unique".toList (PyStr.lower detail.toList)).isSome then
    "duplicate result for (run, workload, model, rep)"
  else s!"integrity error recording result: {String.ofList (detail.toList.take 200)}"

/-! ## The machine -/

inductive Phase where
  | called (call : Call)
  /-- The result is added to the session. -/
  | recording (values : Values)
  | inserted (result : EvalResult)
  | recorded (result : EvalResult)
  /-- The run's object is changed: the time, and the notes if they change. -/
  | finishing (runId : Nat) (finishedAt : Int) (notes : Option String)
  | finished (runId : Nat) (finishedAt : Int)
  | reported (runId : Nat) (finishedAt : Int)
  | refused (error : String)
  | died

/-- What happened that others can see, with the call that did it. -/
inductive Entry where
  | inserted (call : Nat) (result : EvalResult)
  | finished (call runId : Nat) (finishedAt : Int)
  | reported (call runId : Nat)

structure St where
  runs : List (Nat × EvalRun)
  results : List EvalResult
  tasks : List Nat
  calls : List Phase
  log : List Entry

def start : St := ⟨[], [], [], [], []⟩

inductive Event where
  | startRun (id : Nat) (errandVersion : String) (args : RunArgs)
  | createTask (id : Nat)
  | call (call : Call)
  | read (i : Nat) (now : Int)
  /-- The commit, with the id that is drawn and the text of an `IntegrityError`. -/
  | commit (i id : Nat) (detail : String)
  | answer (i : Nat)
  | die (i : Nat)

def setPhase (i : Nat) (phase : Phase) (s : St) : St := { s with calls := s.calls.set i phase }

/-- The constraint and the foreign keys. -/
def admits (s : St) (v : Values) : Bool :=
  s.results.all (fun result => result.values.cell ≠ v.cell) && (Dict.get? s.runs v.runId).isSome &&
    v.taskId.all s.tasks.contains

def read (i : Nat) (now : Int) (s : St) : Call → St
  | .record args =>
    match recordEvalResult uuid s.runs args with
    | .ok values => setPhase i (.recording values) s
    | .error error => setPhase i (.refused error) s
  | .finish runId notes =>
    match finishEvalRun uuid s.runs runId notes with
    | .ok (id, notes) => setPhase i (.finishing id now notes) s
    | .error error => setPhase i (.refused error) s

def insert (i : Nat) (result : EvalResult) (s : St) : St :=
  setPhase i (.inserted result)
    { s with results := s.results ++ [result], log := s.log ++ [.inserted i result] }

/-- `UPDATE eval_runs … WHERE id = …`. -/
def finish (i runId : Nat) (finishedAt : Int) (notes : Option String) (run : EvalRun) (s : St) : St :=
  setPhase i (.finished runId finishedAt)
    { s with
      runs := Dict.set s.runs runId { run with finishedAt := some finishedAt, notes := notes <|> run.notes }
      log := s.log ++ [.finished i runId finishedAt] }

def step (s : St) : Event → Option St
  | .startRun id errandVersion args =>
    match Dict.get? s.runs id, startEvalRun errandVersion args with
    | none, .ok run => some { s with runs := Dict.set s.runs id run }
    | _, _ => none
  | .createTask id => some { s with tasks := id :: s.tasks }
  | .call call => some { s with calls := s.calls ++ [.called call] }
  | .read i now =>
    match s.calls[i]? with
    | some (.called call) => some (read uuid i now s call)
    | _ => none
  | .commit i id detail =>
    match s.calls[i]? with
    | some (.recording values) =>
      some (if admits s values then insert i ⟨id, values⟩ s else setPhase i (.refused (integrityError detail)) s)
    | some (.finishing runId finishedAt notes) =>
      match Dict.get? s.runs runId with
      | some run => some (finish i runId finishedAt notes run s)
      | none => some (setPhase i .died s)
    | _ => none
  | .answer i =>
    match s.calls[i]? with
    | some (.inserted result) => some (setPhase i (.recorded result) s)
    | some (.finished runId finishedAt) =>
      some (setPhase i (.reported runId finishedAt) { s with log := s.log ++ [.reported i runId] })
    | _ => none
  | .die i =>
    match s.calls[i]? with
    | some (.called _) => some (setPhase i .died s)
    | some (.recording _) => some (setPhase i .died s)
    | some (.inserted _) => some (setPhase i .died s)
    | some (.finishing _ _ _) => some (setPhase i .died s)
    | some (.finished _ _) => some (setPhase i .died s)
    | _ => none

def machine : Machine St Event := ⟨(· = start), step uuid⟩

/-! ## What a closed run is -/

/-- What may come after what: no result after a report of its run's finish, no second
    report, and no second finish. -/
def Entry.Before : Entry → Entry → Prop
  | .reported _ runId, .inserted _ result => result.values.runId ≠ runId
  | .reported _ runId, .reported _ runId' => runId' ≠ runId
  | .finished _ runId _, .finished _ runId' _ => runId' ≠ runId
  | _, _ => True

/-- The result a call has inserted. -/
def Phase.result? : Phase → Option EvalResult
  | .inserted result => some result
  | .recorded result => some result
  | _ => none

/-- The run a call has finished. -/
def Phase.finished? : Phase → Option (Nat × Int)
  | .finished runId finishedAt => some (runId, finishedAt)
  | .reported runId finishedAt => some (runId, finishedAt)
  | _ => none

def Holds (s : St) (i : Nat) (result : EvalResult) : Prop :=
  ∃ phase, s.calls[i]? = some phase ∧ phase.result? = some result

structure Closed (s : St) : Prop where
  ordered : s.log.Pairwise Entry.Before
  cells : (s.results.map fun result => result.values.cell).Nodup
  /-- Each row is that of a call that has answered, or is about to. -/
  held : ∀ result ∈ s.results, ∃ i, Holds s i result

/-- No result is committed once a finish of its run is reported, no finish once its run is
    finished, and no call dies between its insert and its answer. -/
def Orderly (s : St) : Event → Prop
  | .commit i _ _ =>
    (∀ values, s.calls[i]? = some (.recording values) → admits s values = true →
      ∀ j, .reported j values.runId ∉ s.log) ∧
    (∀ runId finishedAt notes run, s.calls[i]? = some (.finishing runId finishedAt notes) →
      Dict.get? s.runs runId = some run → run.finishedAt = none)
  | .die i => ∀ result, s.calls[i]? ≠ some (.inserted result)
  | _ => True

/-! ## The invariant -/

structure Inv (s : St) : Prop where
  finishedAt : ∀ id run, Dict.get? s.runs id = some run →
    (run.finishedAt.isSome = true ↔ ∃ j t, Entry.finished j id t ∈ s.log)
  known : ∀ j id t, Entry.finished j id t ∈ s.log → (Dict.get? s.runs id).isSome = true
  finished : ∀ i phase id t, s.calls[i]? = some phase → phase.finished? = some (id, t) → Entry.finished i id t ∈ s.log
  reported : ∀ j id, Entry.reported j id ∈ s.log → ∃ t, s.calls[j]? = some (.reported id t)
  stored : ∀ i result, Holds s i result → result ∈ s.results
  single : ∀ i j a b, Holds s i a → Holds s j b → a.values.cell = b.values.cell → i = j
  cells : (s.results.map fun result => result.values.cell).Nodup

theorem inv_start : Inv start where
  finishedAt := by
    intro id run h
    cases h
  known := by
    intro j id t h
    cases h
  finished := by
    intro i phase id t h
    cases h
  reported := by
    intro j id h
    cases h
  stored := by
    rintro i result ⟨phase, h, -⟩
    cases h
  single := by
    rintro i j a b ⟨phase, h, -⟩
    cases h
  cells := List.nodup_nil

theorem closed_start : Closed start where
  ordered := List.Pairwise.nil
  cells := List.nodup_nil
  held := by
    intro result h
    cases h

theorem holds_set {s : St} {i j : Nat} {phase : Phase} {result : EvalResult} (h : Holds (setPhase i phase s) j result) :
    (j = i ∧ phase.result? = some result) ∨ (j ≠ i ∧ Holds s j result) := by
  obtain ⟨p, hp, hr⟩ := h
  rcases Slots.get_set_cases hp with ⟨rfl, rfl⟩ | ⟨hne, hp⟩
  · exact .inl ⟨rfl, hr⟩
  · exact .inr ⟨hne, p, hp, hr⟩

theorem holds_set_other {s : St} {i j : Nat} (phase : Phase) {result : EvalResult} (hne : j ≠ i)
    (h : Holds s j result) : Holds (setPhase i phase s) j result := by
  obtain ⟨p, hp, hr⟩ := h
  exact ⟨p, (List.getElem?_set_ne (Ne.symm hne)).trans hp, hr⟩

theorem holds_set_self {s : St} {i : Nat} {old phase : Phase} (hi : s.calls[i]? = some old) {result : EvalResult}
    (hr : phase.result? = some result) : Holds (setPhase i phase s) i result :=
  ⟨phase, Slots.get_set_self hi phase, hr⟩

/-- A call goes on, and neither the rows nor the log change. -/
theorem inv_setPhase {s : St} (h : Inv s) {i : Nat} {old phase : Phase} (hi : s.calls[i]? = some old)
    (hold : ∀ id t, old ≠ .reported id t) (hresult : ∀ a, phase.result? = some a → old.result? = some a)
    (hfinished : ∀ p, phase.finished? = some p → old.finished? = some p) : Inv (setPhase i phase s) where
  finishedAt := h.finishedAt
  known := h.known
  finished := by
    intro j p id t hp hf
    rcases Slots.get_set_cases hp with ⟨rfl, rfl⟩ | ⟨-, hp⟩
    · exact h.finished _ _ _ _ hi (hfinished _ hf)
    · exact h.finished _ _ _ _ hp hf
  reported := by
    intro j id hmem
    obtain ⟨t, ht⟩ := h.reported j id hmem
    refine ⟨t, (List.getElem?_set_ne ?_).trans ht⟩
    rintro rfl
    exact hold id t (Option.some.inj (hi.symm.trans ht))
  stored := by
    intro j a ha
    rcases holds_set ha with ⟨-, hr⟩ | ⟨-, ha⟩
    · exact h.stored i a ⟨old, hi, hresult a hr⟩
    · exact h.stored j a ha
  single := by
    intro j k a b ha hb hcell
    rcases holds_set ha with ⟨rfl, hra⟩ | ⟨-, hj⟩ <;> rcases holds_set hb with ⟨rfl, hrb⟩ | ⟨-, hk⟩
    · rfl
    · exact h.single _ _ a b ⟨old, hi, hresult a hra⟩ hk hcell
    · exact h.single _ _ a b hj ⟨old, hi, hresult b hrb⟩ hcell
    · exact h.single _ _ a b hj hk hcell
  cells := h.cells

theorem closed_setPhase {s : St} (h : Closed s) {i : Nat} {old phase : Phase} (hi : s.calls[i]? = some old)
    (hresult : phase.result? = old.result?) : Closed (setPhase i phase s) where
  ordered := h.ordered
  cells := h.cells
  held := by
    intro a ha
    obtain ⟨j, hj⟩ := h.held a ha
    by_cases hji : j = i
    · subst hji
      obtain ⟨p, hp, hr⟩ := hj
      cases hi.symm.trans hp
      exact ⟨j, holds_set_self hi (hresult.trans hr)⟩
    · exact ⟨j, holds_set_other _ hji hj⟩

/-! ## What each step does -/

theorem inv_startRun {s : St} (h : Inv s) {id : Nat} {run : EvalRun} (hnew : Dict.get? s.runs id = none)
    (hopen : run.finishedAt = none) : Inv { s with runs := Dict.set s.runs id run } where
  finishedAt := by
    intro key run' hrun
    rcases Dict.get?_set_cases hrun with ⟨rfl, rfl⟩ | ⟨-, hrun⟩
    · rw [hopen]
      refine ⟨nofun, ?_⟩
      rintro ⟨j, t, hmem⟩
      have hknown := h.known j id t hmem
      rw [hnew] at hknown
      cases hknown
    · exact h.finishedAt key run' hrun
  known := by
    intro j key t hmem
    exact Dict.isSome_set _ _ (h.known j key t hmem)
  finished := h.finished
  reported := h.reported
  stored := h.stored
  single := h.single
  cells := h.cells

theorem holds_call {s : St} {call : Call} {i : Nat} {result : EvalResult} :
    Holds { s with calls := s.calls ++ [.called call] } i result ↔ Holds s i result := by
  constructor
  · rintro ⟨p, hp, hr⟩
    rcases Slots.append_cases hp with hp | ⟨-, rfl⟩
    · exact ⟨p, hp, hr⟩
    · cases hr
  · rintro ⟨p, hp, hr⟩
    exact ⟨p, Slots.append_old _ hp, hr⟩

theorem inv_call {s : St} (h : Inv s) (call : Call) : Inv { s with calls := s.calls ++ [.called call] } where
  finishedAt := h.finishedAt
  known := h.known
  finished := by
    intro i p id t hp hf
    rcases Slots.append_cases hp with hp | ⟨-, rfl⟩
    · exact h.finished i p id t hp hf
    · cases hf
  reported := by
    intro j id hmem
    obtain ⟨t, ht⟩ := h.reported j id hmem
    exact ⟨t, Slots.append_old _ ht⟩
  stored := by
    intro i a ha
    exact h.stored i a (holds_call.mp ha)
  single := by
    intro i j a b ha hb hcell
    exact h.single i j a b (holds_call.mp ha) (holds_call.mp hb) hcell
  cells := h.cells

theorem closed_call {s : St} (h : Closed s) (call : Call) : Closed { s with calls := s.calls ++ [.called call] } where
  ordered := h.ordered
  cells := h.cells
  held := by
    intro a ha
    obtain ⟨i, hi⟩ := h.held a ha
    exact ⟨i, holds_call.mpr hi⟩

theorem pairwise_concat {log : List Entry} {entry : Entry} :
    (log ++ [entry]).Pairwise Entry.Before ↔ log.Pairwise Entry.Before ∧ ∀ e ∈ log, e.Before entry := by
  simp [List.pairwise_append]

theorem admits_cell {s : St} {v : Values} (h : admits s v = true) {result : EvalResult} (hmem : result ∈ s.results) :
    result.values.cell ≠ v.cell := by
  simp only [admits, Bool.and_eq_true, List.all_eq_true] at h
  simpa using h.1.1 result hmem

theorem nodup_insert {s : St} {v : Values} (h : (s.results.map fun result => result.values.cell).Nodup)
    (hadmits : admits s v = true) (id : Nat) :
    ((s.results ++ [EvalResult.mk id v]).map fun result => result.values.cell).Nodup := by
  rw [List.map_append, List.map_singleton]
  refine List.nodup_append.mpr ⟨h, List.pairwise_singleton _ _, ?_⟩
  rintro cell hcell new hnew rfl
  obtain ⟨result, hmem, heq⟩ := List.mem_map.mp hcell
  exact admits_cell hadmits hmem (heq.trans (List.mem_singleton.mp hnew))

theorem inv_insert {s : St} (h : Inv s) {i : Nat} {v : Values} (hi : s.calls[i]? = some (.recording v))
    (hadmits : admits s v = true) (id : Nat) : Inv (insert i ⟨id, v⟩ s) where
  finishedAt := by
    intro key run hrun
    have hlog : (∃ j t, Entry.finished j key t ∈ s.log ++ [.inserted i ⟨id, v⟩]) ↔ ∃ j t, Entry.finished j key t ∈ s.log := by
      simp
    exact (h.finishedAt key run hrun).trans hlog.symm
  known := by
    intro j key t hmem
    exact h.known j key t (by simpa [insert, setPhase] using hmem)
  finished := by
    intro j p key t hp hf
    rcases Slots.get_set_cases hp with ⟨rfl, rfl⟩ | ⟨-, hp⟩
    · cases hf
    · exact List.mem_append_left _ (h.finished j p key t hp hf)
  reported := by
    intro j key hmem
    obtain ⟨t, ht⟩ := h.reported j key (by simpa [insert, setPhase] using hmem)
    refine ⟨t, (List.getElem?_set_ne ?_).trans ht⟩
    rintro rfl
    cases hi.symm.trans ht
  stored := by
    intro j a ha
    rcases holds_set ha with ⟨-, hr⟩ | ⟨-, ha⟩
    · cases hr
      exact List.mem_append_right _ (List.mem_singleton_self _)
    · exact List.mem_append_left _ (h.stored j a ha)
  single := by
    intro j k a b ha hb hcell
    rcases holds_set ha with ⟨rfl, hra⟩ | ⟨-, hj⟩ <;> rcases holds_set hb with ⟨rfl, hrb⟩ | ⟨-, hk⟩
    · rfl
    · cases hra
      exact absurd hcell.symm (admits_cell hadmits (h.stored _ b hk))
    · cases hrb
      exact absurd hcell (admits_cell hadmits (h.stored _ a hj))
    · exact h.single _ _ a b hj hk hcell
  cells := nodup_insert h.cells hadmits id

/-- An insert keeps a run closed exactly if no finish of its run is reported. -/
theorem closed_insert {s : St} (h : Closed s) {i : Nat} {v : Values} (hi : s.calls[i]? = some (.recording v))
    (hadmits : admits s v = true) (id : Nat) :
    Closed (insert i ⟨id, v⟩ s) ↔ ∀ j, Entry.reported j v.runId ∉ s.log := by
  constructor
  · intro hclosed j hmem
    exact (pairwise_concat.mp hclosed.ordered).2 _ hmem rfl
  · intro hnone
    refine ⟨pairwise_concat.mpr ⟨h.ordered, ?_⟩, nodup_insert h.cells hadmits id, ?_⟩
    · intro e he
      cases e with
      | reported j key =>
        rintro rfl
        exact hnone j he
      | _ => trivial
    · intro a ha
      rcases List.mem_append.mp ha with ha | ha
      · obtain ⟨j, hj⟩ := h.held a ha
        refine ⟨j, holds_set_other _ ?_ hj⟩
        rintro rfl
        obtain ⟨p, hp, hr⟩ := hj
        cases hi.symm.trans hp
        cases hr
      · cases List.mem_singleton.mp ha
        exact ⟨i, holds_set_self hi rfl⟩

theorem inv_finish {s : St} (h : Inv s) {i key : Nat} {now : Int} {notes : Option String}
    (hi : s.calls[i]? = some (.finishing key now notes)) {run : EvalRun} (hrun : Dict.get? s.runs key = some run) :
    Inv (finish i key now notes run s) where
  finishedAt := by
    intro id run' hrun'
    rcases Dict.get?_set_cases hrun' with ⟨rfl, rfl⟩ | ⟨hne, hrun'⟩
    · refine ⟨fun _ => ⟨i, now, List.mem_append_right _ (List.mem_singleton_self _)⟩, fun _ => rfl⟩
    · refine (h.finishedAt id run' hrun').trans ⟨?_, ?_⟩
      · rintro ⟨j, t, hmem⟩
        exact ⟨j, t, List.mem_append_left _ hmem⟩
      · rintro ⟨j, t, hmem⟩
        rcases List.mem_append.mp hmem with hmem | hmem
        · exact ⟨j, t, hmem⟩
        · cases List.mem_singleton.mp hmem
          exact absurd rfl hne
  known := by
    intro j id t hmem
    rcases List.mem_append.mp hmem with hmem | hmem
    · exact Dict.isSome_set _ _ (h.known j id t hmem)
    · cases List.mem_singleton.mp hmem
      exact Dict.isSome_set _ _ (by rw [hrun]; rfl)
  finished := by
    intro j p id t hp hf
    rcases Slots.get_set_cases hp with ⟨rfl, rfl⟩ | ⟨-, hp⟩
    · cases hf
      exact List.mem_append_right _ (List.mem_singleton_self _)
    · exact List.mem_append_left _ (h.finished j p id t hp hf)
  reported := by
    intro j id hmem
    obtain ⟨t, ht⟩ := h.reported j id (by simpa [finish, setPhase] using hmem)
    refine ⟨t, (List.getElem?_set_ne ?_).trans ht⟩
    rintro rfl
    cases hi.symm.trans ht
  stored := by
    intro j a ha
    rcases holds_set ha with ⟨-, hr⟩ | ⟨-, ha⟩
    · cases hr
    · exact h.stored j a ha
  single := by
    intro j k a b ha hb hcell
    rcases holds_set ha with ⟨-, hr⟩ | ⟨-, hj⟩
    · cases hr
    · rcases holds_set hb with ⟨-, hr⟩ | ⟨-, hk⟩
      · cases hr
      · exact h.single j k a b hj hk hcell
  cells := h.cells

/-- A finish keeps a run closed exactly if the run is not finished yet. -/
theorem closed_finish {s : St} (hinv : Inv s) (h : Closed s) {i key : Nat} {now : Int} {notes : Option String}
    (hi : s.calls[i]? = some (.finishing key now notes)) {run : EvalRun} (hrun : Dict.get? s.runs key = some run) :
    Closed (finish i key now notes run s) ↔ run.finishedAt = none := by
  have hfinished := hinv.finishedAt key run hrun
  constructor
  · intro hclosed
    rw [← Option.not_isSome_iff_eq_none]
    intro hsome
    obtain ⟨j, t, hmem⟩ := hfinished.mp hsome
    exact (pairwise_concat.mp hclosed.ordered).2 _ hmem rfl
  · intro hopen
    refine ⟨pairwise_concat.mpr ⟨h.ordered, ?_⟩, h.cells, ?_⟩
    · intro e he
      cases e with
      | finished j id t =>
        rintro rfl
        have hsome := hfinished.mpr ⟨j, t, he⟩
        rw [hopen] at hsome
        cases hsome
      | _ => trivial
    · intro a ha
      obtain ⟨j, hj⟩ := h.held a ha
      refine ⟨j, holds_set_other _ ?_ hj⟩
      rintro rfl
      obtain ⟨p, hp, hr⟩ := hj
      cases hi.symm.trans hp
      cases hr

theorem inv_report {s : St} (h : Inv s) {i key : Nat} {now : Int} (hi : s.calls[i]? = some (.finished key now)) :
    Inv (setPhase i (.reported key now) { s with log := s.log ++ [.reported i key] }) where
  finishedAt := by
    intro id run hrun
    have hlog : (∃ j t, Entry.finished j id t ∈ s.log ++ [.reported i key]) ↔ ∃ j t, Entry.finished j id t ∈ s.log := by
      simp
    exact (h.finishedAt id run hrun).trans hlog.symm
  known := by
    intro j id t hmem
    exact h.known j id t (by simpa [setPhase] using hmem)
  finished := by
    intro j p id t hp hf
    rcases Slots.get_set_cases hp with ⟨rfl, rfl⟩ | ⟨-, hp⟩
    · exact List.mem_append_left _ (h.finished _ _ _ _ hi hf)
    · exact List.mem_append_left _ (h.finished j p id t hp hf)
  reported := by
    intro j id hmem
    rcases List.mem_append.mp hmem with hmem | hmem
    · obtain ⟨t, ht⟩ := h.reported j id hmem
      refine ⟨t, (List.getElem?_set_ne ?_).trans ht⟩
      rintro rfl
      cases hi.symm.trans ht
    · cases List.mem_singleton.mp hmem
      exact ⟨now, Slots.get_set_self hi _⟩
  stored := by
    intro j a ha
    rcases holds_set ha with ⟨-, hr⟩ | ⟨-, ha⟩
    · cases hr
    · exact h.stored j a ha
  single := by
    intro j k a b ha hb hcell
    rcases holds_set ha with ⟨-, hr⟩ | ⟨-, hj⟩
    · cases hr
    · rcases holds_set hb with ⟨-, hr⟩ | ⟨-, hk⟩
      · cases hr
      · exact h.single j k a b hj hk hcell
  cells := h.cells

/-- In a log in order a run is finished once. -/
theorem finished_once {log : List Entry} (h : log.Pairwise Entry.Before) {i j id : Nat} {t t' : Int}
    (hi : Entry.finished i id t ∈ log) (hj : Entry.finished j id t' ∈ log) : i = j := by
  have hpair : log.Pairwise fun a b => a.Before b ∨ b.Before a := h.imp Or.inl
  have hsymm : Std.Symm fun a b : Entry => a.Before b ∨ b.Before a := ⟨fun _ _ => Or.symm⟩
  by_contra hne
  have hdiff : Entry.finished i id t ≠ Entry.finished j id t' := by
    intro heq
    cases heq
    exact hne rfl
  rcases hpair.forall hi hj hdiff with hbefore | hbefore <;> exact hbefore rfl

theorem closed_report {s : St} (hinv : Inv s) (h : Closed s) {i key : Nat} {now : Int}
    (hi : s.calls[i]? = some (.finished key now)) :
    Closed (setPhase i (.reported key now) { s with log := s.log ++ [.reported i key] }) where
  ordered := by
    refine pairwise_concat.mpr ⟨h.ordered, ?_⟩
    intro e he
    cases e with
    | reported j id =>
      rintro rfl
      obtain ⟨t, ht⟩ := hinv.reported j key he
      have heq : i = j := finished_once h.ordered (hinv.finished i _ key now hi rfl) (hinv.finished j _ key t ht rfl)
      subst heq
      cases hi.symm.trans ht
    | _ => trivial
  cells := h.cells
  held := by
    intro a ha
    obtain ⟨j, hj⟩ := h.held a ha
    refine ⟨j, holds_set_other _ ?_ hj⟩
    rintro rfl
    obtain ⟨p, hp, hr⟩ := hj
    cases hi.symm.trans hp
    cases hr

/-- A call that dies once its result is stored leaves a row that no call answers for. -/
theorem not_closed_die {s : St} (hinv : Inv s) {i : Nat} {result : EvalResult}
    (hi : s.calls[i]? = some (.inserted result)) : ¬ Closed (setPhase i .died s) := by
  intro h
  have hown : Holds s i result := ⟨_, hi, rfl⟩
  obtain ⟨j, hj⟩ := h.held result (hinv.stored i result hown)
  rcases holds_set hj with ⟨-, hr⟩ | ⟨hne, hj⟩
  · cases hr
  · exact hne (hinv.single j i result result hj hown rfl)

/-- Where nothing is at stake a step keeps the invariant and the run closed. -/
theorem keeps {s s' : St} {C : Prop} (hinv : Inv s') (hclosed : Closed s → Closed s') (hc : C) :
    Inv s' ∧ (Closed s → (Closed s' ↔ C)) :=
  ⟨hinv, fun h => ⟨fun _ => hc, fun _ => hclosed h⟩⟩

/-- A call goes on from a phase in which it has written nothing to another. -/
theorem keeps_goes_on {s : St} {C : Prop} (hinv : Inv s) {i : Nat} {old phase : Phase} (hi : s.calls[i]? = some old)
    (hold : ∀ id t, old ≠ .reported id t) (hresult : phase.result? = old.result?)
    (hfinished : ∀ p, phase.finished? = some p → old.finished? = some p) (hc : C) :
    Inv (setPhase i phase s) ∧ (Closed s → (Closed (setPhase i phase s) ↔ C)) := by
  refine keeps (inv_setPhase hinv hi hold ?_ hfinished) ?_ hc
  · intro a ha
    rw [← hresult, ha]
  · intro h
    exact closed_setPhase h hi hresult

variable {uuid}

theorem orderly_commit {s : St} {i id : Nat} {detail : String} :
    Orderly s (.commit i id detail) ↔
      (∀ values, s.calls[i]? = some (.recording values) → admits s values = true →
        ∀ j, .reported j values.runId ∉ s.log) ∧
      (∀ runId finishedAt notes run, s.calls[i]? = some (.finishing runId finishedAt notes) →
        Dict.get? s.runs runId = some run → run.finishedAt = none) := Iff.rfl

theorem orderly_die {s : St} {i : Nat} :
    Orderly s (.die i) ↔ ∀ result, s.calls[i]? ≠ some (.inserted result) := Iff.rfl

theorem step_startRun {s s' : St} {id : Nat} {errandVersion : String} {args : RunArgs} (hinv : Inv s)
    (hst : step uuid s (.startRun id errandVersion args) = some s') : Inv s' ∧ (Closed s → Closed s') := by
  delta step at hst
  dsimp only at hst
  cases hget : Dict.get? s.runs id with
  | some _ =>
    rw [hget] at hst
    cases hst
  | none =>
    cases hrun : startEvalRun errandVersion args with
    | error _ =>
      rw [hget, hrun] at hst
      cases hst
    | ok run =>
      rw [hget, hrun] at hst
      cases hst
      have hopen : run.finishedAt = none := by
        unfold startEvalRun at hrun
        split at hrun
        · cases hrun
        · cases hrun
          rfl
      exact ⟨inv_startRun hinv hget hopen, fun h => ⟨h.ordered, h.cells, h.held⟩⟩

theorem step_commit {s s' : St} {i id : Nat} {detail : String} (hinv : Inv s)
    (hst : step uuid s (.commit i id detail) = some s') :
    Inv s' ∧ (Closed s → (Closed s' ↔ Orderly s (.commit i id detail))) := by
  delta step at hst
  dsimp only at hst
  cases hi : s.calls[i]? with
  | none =>
    rw [hi] at hst
    cases hst
  | some phase =>
    rw [hi] at hst
    cases phase with
    | recording values =>
      have hcond : Orderly s (.commit i id detail) ↔
          (admits s values = true → ∀ j, Entry.reported j values.runId ∉ s.log) := by
        rw [orderly_commit]
        simp [hi]
      dsimp only at hst
      split at hst
      · rename_i hadmits
        cases hst
        refine ⟨inv_insert hinv hi hadmits id, ?_⟩
        intro h
        rw [closed_insert h hi hadmits, hcond]
        simp [hadmits]
      · rename_i hadmits
        cases hst
        exact keeps_goes_on hinv hi (by rintro _ _ ⟨⟩) rfl (by rintro _ ⟨⟩) (hcond.mpr fun h => absurd h hadmits)
    | finishing runId finishedAt notes =>
      have hcond : Orderly s (.commit i id detail) ↔
          ∀ run, Dict.get? s.runs runId = some run → run.finishedAt = none := by
        rw [orderly_commit, hi]
        constructor
        · rintro ⟨-, h⟩ run hrun
          exact h runId finishedAt notes run rfl hrun
        · intro h
          constructor
          · intro _ heq
            cases heq
          · intro _ _ _ run heq hrun
            cases heq
            exact h run hrun
      dsimp only at hst
      cases hrun : Dict.get? s.runs runId with
      | some run =>
        rw [hrun] at hst
        cases hst
        refine ⟨inv_finish hinv hi hrun, ?_⟩
        intro h
        rw [closed_finish hinv h hi hrun, hcond, hrun]
        simp
      | none =>
        rw [hrun] at hst
        cases hst
        refine keeps_goes_on hinv hi (by rintro _ _ ⟨⟩) rfl (by rintro _ ⟨⟩) (hcond.mpr ?_)
        intro run h
        rw [hrun] at h
        cases h
    | called _ => cases hst
    | inserted _ => cases hst
    | recorded _ => cases hst
    | finished _ _ => cases hst
    | reported _ _ => cases hst
    | refused _ => cases hst
    | died => cases hst

theorem step_answer {s s' : St} {i : Nat} (hinv : Inv s) (hst : step uuid s (.answer i) = some s') :
    Inv s' ∧ (Closed s → Closed s') := by
  delta step at hst
  dsimp only at hst
  split at hst
  · rename_i result hi
    cases hst
    refine ⟨inv_setPhase hinv hi nofun (fun a ha => ha) nofun, fun h => closed_setPhase h hi rfl⟩
  · rename_i runId finishedAt hi
    cases hst
    exact ⟨inv_report hinv hi, fun h => closed_report hinv h hi⟩
  · cases hst

theorem step_die {s s' : St} {i : Nat} (hinv : Inv s) (hst : step uuid s (.die i) = some s') :
    Inv s' ∧ (Closed s → (Closed s' ↔ Orderly s (.die i))) := by
  delta step at hst
  dsimp only at hst
  cases hi : s.calls[i]? with
  | none =>
    rw [hi] at hst
    cases hst
  | some phase =>
    rw [hi] at hst
    have hcond : Orderly s (.die i) ↔ ∀ result, phase ≠ .inserted result := by
      rw [orderly_die]
      simp [hi]
    have hother : phase.result? = none → ∀ result, phase ≠ .inserted result := by
      rintro h result rfl
      cases h
    rw [hcond]
    cases phase with
    | inserted result =>
      cases hst
      refine ⟨inv_setPhase hinv hi nofun ?_ ?_, ?_⟩
      · intro a ha
        cases ha
      · intro p hp
        cases hp
      · intro _
        exact iff_of_false (not_closed_die hinv hi) fun hne => hne result rfl
    | called _ =>
      cases hst
      exact keeps_goes_on hinv hi nofun rfl nofun (hother rfl)
    | recording _ =>
      cases hst
      exact keeps_goes_on hinv hi nofun rfl nofun (hother rfl)
    | finishing _ _ _ =>
      cases hst
      exact keeps_goes_on hinv hi nofun rfl nofun (hother rfl)
    | finished _ _ =>
      cases hst
      exact keeps_goes_on hinv hi nofun rfl nofun (hother rfl)
    | recorded _ => cases hst
    | reported _ _ => cases hst
    | refused _ => cases hst
    | died => cases hst

theorem step_closed {s s' : St} {e : Event} (hinv : Inv s) (hst : step uuid s e = some s') :
    Inv s' ∧ (Closed s → (Closed s' ↔ Orderly s e)) := by
  cases e with
  | startRun id errandVersion args =>
    obtain ⟨hinv', hclosed⟩ := step_startRun hinv hst
    exact keeps hinv' hclosed trivial
  | createTask id =>
    cases hst
    exact keeps ⟨hinv.finishedAt, hinv.known, hinv.finished, hinv.reported, hinv.stored, hinv.single, hinv.cells⟩
      (fun h => ⟨h.ordered, h.cells, h.held⟩) trivial
  | call call =>
    cases hst
    exact keeps (inv_call hinv call) (fun h => closed_call h call) trivial
  | read i now =>
    delta step at hst
    dsimp only at hst
    split at hst
    · rename_i call hi
      cases hst
      cases call with
      | record args =>
        unfold read
        dsimp only
        split <;> exact keeps_goes_on hinv hi nofun rfl nofun trivial
      | finish runId notes =>
        unfold read
        dsimp only
        split <;> exact keeps_goes_on hinv hi nofun rfl nofun trivial
    · cases hst
  | commit i id detail => exact step_commit hinv hst
  | answer i =>
    obtain ⟨hinv', hclosed⟩ := step_answer hinv hst
    exact keeps hinv' hclosed trivial
  | die i => exact step_die hinv hst

/-! ## Main results -/

/-- `uuid.UUID` on the one id of the runs below, and on no text. -/
def oneId (text : String) : Option Nat := if text.isEmpty then none else some 84007427636113259810170328038183333430

def resultArgs : ResultArgs where
  runId := "3f333df6-90a4-4fda-8dd3-9485d27cee36"
  workload := "email-triage"
  model := "gpt"
  rep := 1
  verdict := "pass"
  taskId := none
  score := none
  turns := none
  recoveries := none
  errorEvents := none
  wallSeconds := none
  judgeOutput := none

def resultValues : Values where
  runId := 84007427636113259810170328038183333430
  workload := "email-triage"
  model := "gpt"
  taskId := none
  rep := 1
  verdict := "pass"
  score := none
  turns := none
  recoveries := none
  errorEvents := none
  wallSeconds := none
  judgeOutput := none

def started : List Event :=
  [.startRun 84007427636113259810170328038183333430 "0.1.0" ⟨"live", "v1", "judge", none, none⟩,
   .call (.finish "3f333df6-90a4-4fda-8dd3-9485d27cee36" none)]

/-- The result's call reads the run, the finish is reported, and the result is committed. -/
def lateResult : List Event :=
  started ++ [.call (.record resultArgs), .read 1 0, .read 0 1, .commit 0 0 "", .answer 0, .commit 1 7 ""]

theorem log_lateResult :
    ((machine oneId).exec start lateResult).map St.log =
      some [.finished 0 84007427636113259810170328038183333430 1, .reported 0 84007427636113259810170328038183333430,
        .inserted 1 ⟨7, resultValues⟩] := rfl

/-- Both finishes read the run before either is committed. -/
def twoFinishes : List Event :=
  started ++ [.call (.finish "3f333df6-90a4-4fda-8dd3-9485d27cee36" none), .read 0 1, .read 1 2,
    .commit 0 0 "", .answer 0, .commit 1 0 "", .answer 1]

theorem two_finishes_succeed :
    ((machine oneId).exec start twoFinishes).map St.log =
      some [.finished 0 84007427636113259810170328038183333430 1, .reported 0 84007427636113259810170328038183333430,
        .finished 1 84007427636113259810170328038183333430 2, .reported 1 84007427636113259810170328038183333430] := rfl

end Errand.Server.EvalRuns

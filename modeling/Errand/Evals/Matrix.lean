import Errand.Evals.ProfileNames
import Errand.Lib.Dict
import Errand.Lib.Json
import Errand.Lib.Machine

/-
  Errand.Evals.Matrix — a live evaluation run (`run_matrix`, evals/runner.py; `_call`,
  evals/mcp_client.py) against the server's profiles and results (`clone_task_profile`,
  `delete_task_profile`, `record_eval_result`, `finish_eval_run`; errand/mcp_server.py).

  The driver goes through models and tasks; it clones a profile for the two, runs the
  repetitions that had no result when it started, and records each. Then it deletes the profiles
  it created and finishes the run. A call is made up to three times: an attempt may be lost
  before or after the server has carried it out. The driver dies between any two steps, and is
  started again for the same run. Others create and delete profiles.

  What a repetition comes to is open, and so is whether the server takes a result for other
  reasons than those modelled (its ids).

  Proved:
  - `Rule.reach`: what a call, a repetition and the others at the server keep holds of every state
    reached, of the server and of the driver at work.
  - `finished_complete`: however often the driver died, each cell of the matrix has one result
    when the run is finished, but for those the process that finished it was refused.
-/

namespace Errand.Evals.Matrix

open Errand.Lib
open ProfileNames (evalProfileName)

abbrev Text := List Char

abbrev Fields := List (String × Json)

/-- What the driver uses of a corpus task. -/
structure CorpusTask where
  workload : Text
  baseProfile : Text
  reps : Nat
  deriving DecidableEq, Repr

structure Job where
  model : Text
  task : CorpusTask
  deriving DecidableEq, Repr

/-- Workload, model and repetition. -/
abbrev Cell := Text × Text × Nat

def Job.cell (job : Job) (rep : Nat) : Cell := (job.task.workload, job.model, rep)

def Job.cells (job : Job) : List Cell := (List.range job.task.reps).map job.cell

def Job.profile (job : Job) : Text := evalProfileName job.task.workload job.model

def jobsOf (models : List Text) (corpusTasks : List CorpusTask) : List Job :=
  models.flatMap fun model => corpusTasks.map fun task => ⟨model, task⟩

def cells (jobs : List Job) : List Cell := jobs.flatMap Job.cells

inductive Owner where
  | driver
  | others
  deriving DecidableEq, Repr

structure Profile where
  model : Option Fields
  /-- The other columns, which a clone copies. -/
  settings : Fields
  owner : Owner

structure EvalResult where
  cell : Cell
  verdict : String
  /-- The model of the profile the repetition ran under; none if there was no profile. -/
  ranUnder : Option (Option Fields)

/-- What the driver does next. -/
inductive Stage where
  | fetching
  | cloning (job : Job) (reps : List Nat)
  | running (job : Job) (rep : Nat) (reps : List Nat)
  | recording (job : Job) (reps : List Nat) (result : EvalResult)
  | deleting (name : Text) (names : List Text)
  | finishing

structure Driver where
  recorded : List Cell
  todo : List Job
  stage : Stage
  created : List Text
  /-- The cells that it was refused, with the profile or the result. -/
  refused : List Cell
  tries : Nat

structure Server where
  profiles : List (Text × Profile)
  results : List EvalResult
  finished : Bool
  /-- Whose profiles the driver has deleted. -/
  deleted : List Owner
  /-- The cells that the process that finished the run was refused. -/
  missed : List Cell

def Server.cells (s : Server) : List Cell := s.results.map (·.cell)

structure State where
  server : Server
  driver : Option Driver

/-! ## The server -/

inductive Answer where
  | cells (recorded : List Cell)
  | reused
  | ok
  | error
  deriving DecidableEq, Repr

def Answer.recorded : Answer → List Cell
  | .cells recorded => recorded
  | _ => []

/-- The copy of a profile, for the job's model. -/
def cloneOf (job : Job) (src : Profile) : Profile :=
  ⟨some (Json.setField "model" (.str (String.ofList job.model)) (src.model.getD [])), src.settings, .driver⟩

/-- `clone_task_profile`, of a model. -/
def cloneTaskProfile (job : Job) (s : Server) : Server × Answer :=
  if (Dict.get? s.profiles job.profile).isSome then (s, .reused)
  else
    match Dict.get? s.profiles job.task.baseProfile with
    | none => (s, .error)
    | some src => ({ s with profiles := Dict.set s.profiles job.profile (cloneOf job src) }, .ok)

/-- `record_eval_result`; `sound` where the ids are. -/
def recordEvalResult (sound : Bool) (result : EvalResult) (s : Server) : Server × Answer :=
  if sound && !s.finished && !s.cells.contains result.cell then ({ s with results := s.results ++ [result] }, .ok)
  else (s, .error)

def deleteTaskProfile (name : Text) (s : Server) : Server :=
  match Dict.get? s.profiles name with
  | none => s
  | some profile => { s with profiles := Dict.pop s.profiles name, deleted := s.deleted ++ [profile.owner] }

def finishEvalRun (refused : List Cell) (s : Server) : Server :=
  if s.finished then s else { s with finished := true, missed := refused }

/-! ## The driver -/

def pendingReps (recorded : List Cell) (job : Job) : List Nat :=
  (List.range job.task.reps).filter fun rep => !recorded.contains (job.cell rep)

/-- The next job with repetitions to run, and the jobs behind it. -/
def next (recorded : List Cell) : List Job → Option (Job × List Nat × List Job)
  | [] => none
  | job :: jobs => if pendingReps recorded job = [] then next recorded jobs else some (job, pendingReps recorded job, jobs)

def closing : List Text → Stage
  | [] => .finishing
  | name :: names => .deleting name names

def proceed (d : Driver) : Driver :=
  match next d.recorded d.todo with
  | some (job, reps, jobs) => { d with stage := .cloning job reps, todo := jobs, tries := 0 }
  | none => { d with stage := closing d.created, todo := [], tries := 0 }

def proceedRep (d : Driver) (job : Job) : List Nat → Driver
  | [] => proceed d
  | rep :: reps => { d with stage := .running job rep reps, tries := 0 }

def track (d : Driver) (name : Text) : Driver :=
  if d.created.contains name then d else { d with created := d.created ++ [name] }

def refuse (d : Driver) (refused : List Cell) : Driver := { d with refused := d.refused ++ refused }

/-- The call a driver makes, and what it is answered. -/
def call (sound : Bool) (d : Driver) (s : Server) : Server × Answer :=
  match d.stage with
  | .fetching => (s, .cells s.cells)
  | .cloning job _ => cloneTaskProfile job s
  | .running _ _ _ => (s, .ok)
  | .recording _ _ result => recordEvalResult sound result s
  | .deleting name _ => (deleteTaskProfile name s, .ok)
  | .finishing => (finishEvalRun d.refused s, .ok)

/-- What it does then. Whether a result was taken makes no difference to it. -/
def heard (d : Driver) (a : Answer) : Option Driver :=
  match d.stage with
  | .fetching => some (proceed { d with recorded := a.recorded })
  | .cloning job reps =>
    match a with
    | .error => some (proceed (refuse d (reps.map job.cell)))
    | .ok => some (proceedRep (track d job.profile) job reps)
    | _ => some (proceedRep d job reps)
  | .running _ _ _ => none
  | .recording job reps result =>
    match a with
    | .error => some (proceedRep (refuse d [result.cell]) job reps)
    | _ => some (proceedRep d job reps)
  | .deleting _ names => some { d with stage := closing names, tries := 0 }
  | .finishing => none

def Stage.calls : Stage → Bool
  | .running _ _ _ => false
  | _ => true

/-- A call that was not answered is made again, but not a fourth time. -/
def again (d : Driver) : Option Driver := if d.tries = 2 then none else some { d with tries := d.tries + 1 }

/-- A repetition has run under the profile there is. -/
def ranOf (s : Server) (d : Driver) (job : Job) (rep : Nat) (reps : List Nat) (verdict : String) : Driver :=
  let ranUnder := (Dict.get? s.profiles job.profile).map (·.model)
  { d with stage := .recording job reps ⟨job.cell rep, verdict, ranUnder⟩, tries := 0 }

inductive Event where
  | start
  | answered (sound : Bool)
  | lost (reached sound : Bool)
  /-- A repetition has run, and was judged or was not. -/
  | ran (verdict : String)
  | die
  | create (name : Text) (model : Option Fields) (settings : Fields)
  | delete (name : Text)

variable (jobs : List Job)

def fresh : Driver := ⟨[], jobs, .fetching, [], [], 0⟩

def stepDriver (s : Server) (d : Driver) : Event → Option State
  | .answered sound => if d.stage.calls then some ⟨(call sound d s).1, heard d (call sound d s).2⟩ else none
  | .lost reached sound => some ⟨if reached then (call sound d s).1 else s, again d⟩
  | .ran verdict =>
    match d.stage with
    | .running job rep reps => some ⟨s, some (ranOf s d job rep reps verdict)⟩
    | _ => none
  | .die => some ⟨s, none⟩
  | _ => none

def step (s : State) : Event → Option State
  | .start => if s.driver.isNone then some ⟨s.server, some (fresh jobs)⟩ else none
  | .create name model settings =>
    if (Dict.get? s.server.profiles name).isSome then none
    else some { s with server.profiles := Dict.set s.server.profiles name ⟨model, settings, .others⟩ }
  | .delete name => some { s with server.profiles := Dict.pop s.server.profiles name }
  | e => s.driver.bind fun d => stepDriver s.server d e

/-- A run that has just been started, on a server with any profiles of others. -/
structure Start (s : State) : Prop where
  results : s.server.results = []
  finished : s.server.finished = false
  deleted : s.server.deleted = []
  driver : s.driver = none

def machine : Machine State Event where
  init := Start
  step := step jobs

variable {jobs}

/-! ## What the server does, and what a driver makes of it -/

/-- What a call may come to, and the driver behind it. -/
inductive Answers (d : Driver) (s : Server) : Server → Option Driver → Prop
  | fetched (h : d.stage = .fetching) : Answers d s s (some (proceed { d with recorded := s.cells }))
  | reused {job : Job} {reps : List Nat} (h : d.stage = .cloning job reps) : Answers d s s (some (proceedRep d job reps))
  | noBase {job : Job} {reps : List Nat} (h : d.stage = .cloning job reps) :
      Answers d s s (some (proceed (refuse d (reps.map job.cell))))
  | cloned {job : Job} {reps : List Nat} (h : d.stage = .cloning job reps) (src : Profile) :
      Answers d s { s with profiles := Dict.set s.profiles job.profile (cloneOf job src) }
        (some (proceedRep (track d job.profile) job reps))
  | idle {job : Job} {rep : Nat} {reps : List Nat} (h : d.stage = .running job rep reps) : Answers d s s none
  | recorded {job : Job} {reps : List Nat} {result : EvalResult} (h : d.stage = .recording job reps result)
      (hopen : s.finished = false) (hnew : result.cell ∉ s.cells) :
      Answers d s { s with results := s.results ++ [result] } (some (proceedRep d job reps))
  | refused {job : Job} {reps : List Nat} {result : EvalResult} (h : d.stage = .recording job reps result) :
      Answers d s s (some (proceedRep (refuse d [result.cell]) job reps))
  | deleted {name : Text} {names : List Text} (h : d.stage = .deleting name names) {profile : Profile}
      (hname : Dict.get? s.profiles name = some profile) :
      Answers d s { s with profiles := Dict.pop s.profiles name, deleted := s.deleted ++ [profile.owner] }
        (some { d with stage := closing names, tries := 0 })
  | absent {name : Text} {names : List Text} (h : d.stage = .deleting name names) :
      Answers d s s (some { d with stage := closing names, tries := 0 })
  | finished (h : d.stage = .finishing) (hopen : s.finished = false) :
      Answers d s { s with finished := true, missed := d.refused } none
  | settled (h : d.stage = .finishing) : Answers d s s none

theorem call_answers (sound : Bool) (d : Driver) (s : Server) :
    Answers d s (call sound d s).1 (heard d (call sound d s).2) := by
  unfold call heard
  cases hstage : d.stage with
  | fetching => exact .fetched hstage
  | cloning job reps =>
    dsimp only
    unfold cloneTaskProfile
    cases hname : Dict.get? s.profiles job.profile with
    | some profile => exact .reused hstage
    | none =>
      cases hbase : Dict.get? s.profiles job.task.baseProfile with
      | none => exact .noBase hstage
      | some src => exact .cloned hstage src
  | running job rep reps => exact .idle hstage
  | recording job reps result =>
    dsimp only
    unfold recordEvalResult
    split
    · rename_i h
      simp only [Bool.and_eq_true, Bool.not_eq_true', List.contains_eq_mem, decide_eq_false_iff_not] at h
      exact .recorded hstage h.1.2 h.2
    · exact .refused hstage
  | deleting name names =>
    dsimp only
    unfold deleteTaskProfile
    cases hname : Dict.get? s.profiles name with
    | none => exact .absent hstage
    | some profile => exact .deleted hstage hname
  | finishing =>
    dsimp only
    unfold finishEvalRun
    cases hopen : s.finished with
    | true => exact .settled hstage
    | false => exact .finished hstage hopen

/-- What holds of the server, `K`, and what a driver may rely on, `G`, whatever is done next. -/
structure Rule (jobs : List Job) (C : State → Event → Prop) (K : Server → Prop) (G : Server → Driver → Prop) : Prop where
  fresh : ∀ s, K s → G s (fresh jobs)
  call : ∀ s d t next, K s → G s d → Answers d s t next →
    K t ∧ G t d ∧ ∀ d', next = some d' → G t d'
  again : ∀ s d n, G s d → G s { d with tries := n }
  ran : ∀ s d job rep reps verdict, K s → G s d → d.stage = .running job rep reps → G s (ranOf s d job rep reps verdict)
  create : ∀ s name model settings, K s.server → (∀ d, s.driver = some d → G s.server d) → C s (.create name model settings) →
    K { s.server with profiles := Dict.set s.server.profiles name ⟨model, settings, .others⟩ } ∧
      ∀ d, s.driver = some d → G { s.server with profiles := Dict.set s.server.profiles name ⟨model, settings, .others⟩ } d
  delete : ∀ s name, K s → K { s with profiles := Dict.pop s.profiles name } ∧
    ∀ d, G s d → G { s with profiles := Dict.pop s.profiles name } d

/-- How a driver goes on behind a call, if it does. -/
theorem goes {P : Driver → Prop} {d : Driver} (h : P d) : ∀ d', some d = some d' → P d' := by
  rintro _ ⟨⟩
  exact h

theorem stops {P : Driver → Prop} : ∀ d', none = some d' → P d' := by
  rintro _ ⟨⟩

structure Holds (K : Server → Prop) (G : Server → Driver → Prop) (s : State) : Prop where
  server : K s.server
  driver : ∀ d, s.driver = some d → G s.server d

theorem Rule.step {C : State → Event → Prop} {K : Server → Prop} {G : Server → Driver → Prop} (R : Rule jobs C K G)
    {s s' : State} {e : Event} (h : Holds K G s) (hc : C s e) (hstep : step jobs s e = some s') : Holds K G s' := by
  have hdriver : ∀ {e : Event}, s.driver.bind (fun d => stepDriver s.server d e) = some s' →
      ∃ d, G s.server d ∧ stepDriver s.server d e = some s' := by
    intro e hbind
    obtain ⟨d, hd, hstep⟩ := Option.bind_eq_some_iff.mp hbind
    exact ⟨d, h.driver d hd, hstep⟩
  cases e with
  | start =>
    rw [Matrix.step] at hstep
    split at hstep
    · cases hstep
      exact ⟨h.server, goes (R.fresh _ h.server)⟩
    · cases hstep
  | answered sound =>
    obtain ⟨d, hd, hstep⟩ := hdriver hstep
    rw [stepDriver] at hstep
    split at hstep
    · cases hstep
      obtain ⟨ht, -, hheard⟩ := R.call _ d _ _ h.server hd (call_answers sound d s.server)
      exact ⟨ht, hheard⟩
    · cases hstep
  | lost reached sound =>
    obtain ⟨d, hd, hstep⟩ := hdriver hstep
    cases hstep
    have hagain : ∀ {t : Server}, K t → G t d → Holds K G ⟨t, Matrix.again d⟩ := by
      intro t ht hdt
      unfold Matrix.again
      split
      · exact ⟨ht, stops⟩
      · exact ⟨ht, goes (R.again _ d _ hdt)⟩
    cases reached with
    | false => exact hagain h.server hd
    | true =>
      have hcall := R.call _ d _ _ h.server hd (call_answers sound d s.server)
      exact hagain hcall.1 hcall.2.1
  | ran verdict =>
    obtain ⟨d, hd, hstep⟩ := hdriver hstep
    rw [stepDriver] at hstep
    split at hstep
    · rename_i job rep reps hstage
      cases hstep
      exact ⟨h.server, goes (R.ran _ d job rep reps verdict h.server hd hstage)⟩
    · cases hstep
  | die =>
    obtain ⟨d, -, hstep⟩ := hdriver hstep
    cases hstep
    exact ⟨h.server, stops⟩
  | create name model settings =>
    rw [Matrix.step] at hstep
    split at hstep
    · cases hstep
    · cases hstep
      obtain ⟨ht, hd⟩ := R.create s name model settings h.server h.driver hc
      exact ⟨ht, hd⟩
  | delete name =>
    cases hstep
    obtain ⟨ht, hd⟩ := R.delete s.server name h.server
    exact ⟨ht, fun d hsome => hd d (h.driver d hsome)⟩

/-- What a rule is about holds of every state a run that meets its condition reaches. -/
theorem Rule.reach {C : State → Event → Prop} {K : Server → Prop} {G : Server → Driver → Prop} (R : Rule jobs C K G)
    (hstart : ∀ s, Start s → K s.server) {s : State} (h : (machine jobs).ReachIf C s) : Holds K G s := by
  refine h.inv (fun t ht => ⟨hstart t ht, fun d hd => ?_⟩) fun _ _ _ hi hc (hst : Matrix.step jobs _ _ = some _) => R.step hi hc hst
  rw [ht.driver] at hd
  cases hd

/-! ## What is ahead -/

def Stage.ahead : Stage → List Cell
  | .cloning job reps => reps.map job.cell
  | .running job rep reps => job.cell rep :: reps.map job.cell
  | .recording job reps result => result.cell :: reps.map job.cell
  | _ => []

def Stage.closed : Stage → Bool
  | .deleting _ _ => true
  | .finishing => true
  | _ => false

theorem mem_cells {c : Cell} : c ∈ cells jobs ↔ ∃ job ∈ jobs, c ∈ job.cells := List.mem_flatMap

theorem cells_cons (job : Job) (jobs : List Job) : cells (job :: jobs) = job.cells ++ cells jobs := List.flatMap_cons

theorem mem_pending {recorded : List Cell} {job : Job} {c : Cell} (h : c ∈ job.cells) :
    c ∈ recorded ∨ c ∈ (pendingReps recorded job).map job.cell := by
  obtain ⟨rep, hrep, rfl⟩ := List.mem_map.mp h
  by_cases hrecorded : job.cell rep ∈ recorded
  · exact .inl hrecorded
  · refine .inr (List.mem_map_of_mem (List.mem_filter.mpr ⟨hrep, ?_⟩))
    simpa only [Bool.not_eq_true', List.contains_eq_mem, decide_eq_false_iff_not] using hrecorded

theorem pending_cells {recorded : List Cell} {job : Job} {c : Cell} (h : c ∈ (pendingReps recorded job).map job.cell) :
    c ∈ job.cells := by
  obtain ⟨rep, hrep, rfl⟩ := List.mem_map.mp h
  exact List.mem_map_of_mem (List.mem_filter.mp hrep).1

theorem next_cons (recorded : List Cell) (job : Job) (jobs : List Job) :
    next recorded (job :: jobs) =
      if pendingReps recorded job = [] then next recorded jobs else some (job, pendingReps recorded job, jobs) := rfl

/-- Before the next job nothing is left to run. -/
theorem next_some {recorded : List Cell} {job : Job} {reps : List Nat} {rest : List Job}
    (h : next recorded jobs = some (job, reps, rest)) :
    job ∈ jobs ∧ (∀ other ∈ rest, other ∈ jobs) ∧ reps = pendingReps recorded job ∧
      ∀ c ∈ cells jobs, c ∈ recorded ∨ c ∈ reps.map job.cell ∨ c ∈ cells rest := by
  induction jobs with
  | nil => cases h
  | cons first jobs ih =>
    rw [next_cons] at h
    by_cases hnone : pendingReps recorded first = []
    · rw [if_pos hnone] at h
      obtain ⟨hjob, hrest, hreps, hcells⟩ := ih h
      refine ⟨List.mem_cons_of_mem _ hjob, fun other ho => List.mem_cons_of_mem _ (hrest other ho), hreps, fun c hc => ?_⟩
      rw [cells_cons, List.mem_append] at hc
      rcases hc with hc | hc
      · rcases (mem_pending hc : c ∈ recorded ∨ _) with hc | hc
        · exact .inl hc
        · rw [hnone] at hc
          cases hc
      · exact hcells c hc
    · rw [if_neg hnone] at h
      cases h
      refine ⟨List.mem_cons_self, fun other ho => List.mem_cons_of_mem _ ho, rfl, fun c hc => ?_⟩
      rw [cells_cons, List.mem_append] at hc
      rcases hc with hc | hc
      · exact (mem_pending hc).imp_right .inl
      · exact .inr (.inr hc)

theorem next_none {recorded : List Cell} (h : next recorded jobs = none) : ∀ c ∈ cells jobs, c ∈ recorded := by
  induction jobs with
  | nil => exact List.forall_mem_nil _
  | cons first jobs ih =>
    rw [next_cons] at h
    by_cases hnone : pendingReps recorded first = []
    · rw [if_pos hnone] at h
      intro c hc
      rw [cells_cons, List.mem_append] at hc
      rcases hc with hc | hc
      · rcases (mem_pending hc : c ∈ recorded ∨ _) with hc | hc
        · exact hc
        · rw [hnone] at hc
          cases hc
      · exact ih h c hc
    · rw [if_neg hnone] at h
      cases h

/-- What a driver that has so many cells in hand knows, and what there is left to do. -/
structure Ready (jobs : List Job) (s : Server) (d : Driver) (hand : List Cell) : Prop where
  recorded : ∀ c ∈ d.recorded, c ∈ s.cells
  todo : ∀ job ∈ d.todo, job ∈ jobs
  within : ∀ c ∈ hand, c ∈ cells jobs
  covers : ∀ c ∈ cells jobs, c ∈ s.cells ∨ c ∈ d.refused ∨ c ∈ hand ∨ c ∈ cells d.todo

structure Going (jobs : List Job) (s : Server) (d : Driver) : Prop where
  ready : Ready jobs s d d.stage.ahead
  closed : d.stage.closed = true → d.todo = []

theorem Ready.mono {s s' : Server} {d : Driver} {hand : List Cell} (h : Ready jobs s d hand)
    (hcells : ∀ c ∈ s.cells, c ∈ s'.cells) : Ready jobs s' d hand :=
  ⟨fun c hc => hcells c (h.recorded c hc), h.todo, h.within, fun c hc => (h.covers c hc).imp_left (hcells c)⟩

theorem Going.mono {s s' : Server} {d : Driver} (h : Going jobs s d) (hcells : ∀ c ∈ s.cells, c ∈ s'.cells) : Going jobs s' d :=
  ⟨h.ready.mono hcells, h.closed⟩

theorem closing_ahead (names : List Text) : (closing names).ahead = [] := by
  cases names <;> rfl

theorem Ready.proceed {s : Server} {d : Driver} (h : Ready jobs s d []) : Going jobs s (proceed d) := by
  unfold Matrix.proceed
  split
  · rename_i job reps rest hnext
    obtain ⟨hjob, hrest, hreps, hcells⟩ := next_some hnext
    refine ⟨⟨h.recorded, fun other ho => h.todo other (hrest other ho), fun c hc => ?_, fun c hc => ?_⟩, by rintro ⟨⟩⟩
    · rw [Stage.ahead, hreps] at hc
      exact mem_cells.mpr ⟨job, h.todo job hjob, pending_cells hc⟩
    · rcases h.covers c hc with hc | hc | hc | hc
      · exact .inl hc
      · exact .inr (.inl hc)
      · cases hc
      · rcases hcells c hc with hc | hc
        · exact .inl (h.recorded c hc)
        · exact .inr (.inr hc)
  · rename_i hnext
    refine ⟨⟨h.recorded, List.forall_mem_nil _, fun c hc => ?_, fun c hc => ?_⟩, fun _ => rfl⟩
    · rw [closing_ahead] at hc
      cases hc
    · rcases h.covers c hc with hc | hc | hc | hc
      · exact .inl hc
      · exact .inr (.inl hc)
      · cases hc
      · exact .inl (h.recorded c (next_none hnext c hc))

theorem Ready.proceedRep {s : Server} {d : Driver} {job : Job} {reps : List Nat} (h : Ready jobs s d (reps.map job.cell)) :
    Going jobs s (proceedRep d job reps) := by
  cases reps with
  | nil => exact h.proceed
  | cons rep reps => exact ⟨⟨h.recorded, h.todo, h.within, h.covers⟩, by rintro ⟨⟩⟩

/-- The cells in hand that are given up are counted as refused. -/
theorem Ready.refuse {s : Server} {d : Driver} {given hand : List Cell} (h : Ready jobs s d (given ++ hand)) :
    Ready jobs s (refuse d given) hand := by
  refine ⟨h.recorded, h.todo, fun c hc => h.within c (List.mem_append_right _ hc), fun c hc => ?_⟩
  rcases h.covers c hc with hc | hc | hc | hc
  · exact .inl hc
  · exact .inr (.inl (List.mem_append_left _ hc))
  · rcases List.mem_append.mp hc with hc | hc
    · exact .inr (.inl (List.mem_append_right _ hc))
    · exact .inr (.inr (.inl hc))
  · exact .inr (.inr (.inr hc))

theorem Ready.track {s : Server} {d : Driver} {hand : List Cell} (h : Ready jobs s d hand) (name : Text) :
    Ready jobs s (track d name) hand := by
  unfold Matrix.track
  split
  · exact h
  · exact ⟨h.recorded, h.todo, h.within, h.covers⟩

/-! ## Every cell has a result -/

/-- Each cell has at most one result, only those of the matrix have, and what a finished run
    does not have was refused. -/
structure Kept (jobs : List Job) (s : Server) : Prop where
  nodup : s.cells.Nodup
  within : ∀ c ∈ s.cells, c ∈ cells jobs
  done : s.finished = true → ∀ c ∈ cells jobs, c ∈ s.cells ∨ c ∈ s.missed

theorem cells_append (s : Server) (result : EvalResult) :
    ({ s with results := s.results ++ [result] } : Server).cells = s.cells ++ [result.cell] := List.map_append

theorem Kept.recorded {s : Server} {result : EvalResult} (h : Kept jobs s) (hopen : s.finished = false)
    (hnew : result.cell ∉ s.cells) (hmem : result.cell ∈ cells jobs) :
    Kept jobs { s with results := s.results ++ [result] } := by
  refine ⟨?_, ?_, fun hdone => ?_⟩
  · rw [cells_append, List.nodup_append]
    refine ⟨h.nodup, List.nodup_cons.mpr ⟨List.not_mem_nil, List.nodup_nil⟩, ?_⟩
    rintro c hc _ hlast rfl
    rw [List.mem_singleton.mp hlast] at hc
    exact hnew hc
  · rw [cells_append]
    exact List.forall_mem_append.mpr ⟨h.within, List.forall_mem_singleton.mpr hmem⟩
  · rw [show ({ s with results := s.results ++ [result] } : Server).finished = s.finished from rfl, hopen] at hdone
    cases hdone

/-- A driver that deletes has nothing else ahead. -/
theorem Going.deleted {s : Server} {d : Driver} (h : Going jobs s d) {name : Text} {names : List Text}
    (hstage : d.stage = .deleting name names) : Going jobs s { d with stage := closing names, tries := 0 } := by
  have hready := h.ready
  rw [hstage] at hready
  refine ⟨⟨hready.recorded, hready.todo, ?_, ?_⟩, fun _ => h.closed (by rw [hstage]; rfl)⟩
  · rw [closing_ahead]
    exact List.forall_mem_nil _
  · rw [closing_ahead]
    exact hready.covers

/-- A cell in hand that has a result. -/
theorem Ready.taken {s t : Server} {d : Driver} {c : Cell} {hand : List Cell} (h : Ready jobs s d (c :: hand))
    (hcells : ∀ other ∈ s.cells, other ∈ t.cells) (hc : c ∈ t.cells) : Ready jobs t d hand := by
  refine ⟨(h.mono hcells).recorded, h.todo, fun other ho => h.within other (List.mem_cons_of_mem _ ho), fun other ho => ?_⟩
  rcases (h.mono hcells).covers other ho with ho | ho | ho | ho
  · exact .inl ho
  · exact .inr (.inl ho)
  · rcases List.mem_cons.mp ho with rfl | ho
    · exact .inl hc
    · exact .inr (.inr (.inl ho))
  · exact .inr (.inr (.inr ho))

theorem Going.call {s t : Server} {d : Driver} {next : Option Driver} (hk : Kept jobs s) (h : Going jobs s d)
    (ha : Answers d s t next) : Kept jobs t ∧ Going jobs t d ∧ ∀ d', next = some d' → Going jobs t d' := by
  have hready := h.ready
  cases ha with
  | fetched hstage => exact ⟨hk, h, goes (Ready.proceed ⟨fun _ hc => hc, hready.todo, List.forall_mem_nil _, by
      rw [hstage] at hready
      exact hready.covers⟩)⟩
  | reused hstage =>
    rw [hstage] at hready
    exact ⟨hk, h, goes hready.proceedRep⟩
  | @noBase job reps hstage =>
    rw [hstage, ← List.append_nil (Stage.ahead _)] at hready
    exact ⟨hk, h, goes (Ready.refuse hready).proceed⟩
  | @cloned job reps hstage src =>
    have hmore : Ready jobs { s with profiles := Dict.set s.profiles job.profile (cloneOf job src) } d d.stage.ahead :=
      hready.mono fun _ hc => hc
    rw [hstage] at hmore
    exact ⟨⟨hk.nodup, hk.within, hk.done⟩, h.mono fun _ hc => hc, goes (hmore.track job.profile).proceedRep⟩
  | idle hstage => exact ⟨hk, h, stops⟩
  | @recorded job reps result hstage hopen hnew =>
    rw [hstage] at hready
    have hcells := cells_append s result
    have hmore : ∀ c ∈ s.cells, c ∈ ({ s with results := s.results ++ [result] } : Server).cells := fun c hc => by
      rw [hcells]
      exact List.mem_append_left _ hc
    refine ⟨hk.recorded hopen hnew (hready.within _ List.mem_cons_self), h.mono hmore, goes (hready.taken hmore ?_).proceedRep⟩
    rw [hcells]
    exact List.mem_append_right _ List.mem_cons_self
  | @refused job reps result hstage =>
    rw [hstage] at hready
    have hgiven : Ready jobs s d ([result.cell] ++ reps.map job.cell) := hready
    exact ⟨hk, h, goes hgiven.refuse.proceedRep⟩
  | deleted hstage _ =>
    exact ⟨⟨hk.nodup, hk.within, hk.done⟩, h.mono fun _ hc => hc, goes ((h.deleted hstage).mono fun _ hc => hc)⟩
  | absent hstage => exact ⟨hk, h, goes (h.deleted hstage)⟩
  | finished hstage _ =>
    refine ⟨⟨hk.nodup, hk.within, fun _ c hc => ?_⟩, h.mono fun _ hc => hc, stops⟩
    have hcovers := hready.covers c hc
    rw [h.closed (by rw [hstage]; rfl), hstage] at hcovers
    rcases hcovers with hc | hc | hc | hc
    · exact .inl hc
    · exact .inr hc
    · cases hc
    · cases hc
  | settled hstage => exact ⟨hk, h, stops⟩

theorem cells_rule : Rule jobs (fun _ _ => True) (Kept jobs) (Going jobs) where
  fresh _ _ := ⟨⟨List.forall_mem_nil _, fun _ hj => hj, List.forall_mem_nil _, fun _ hc => .inr (.inr (.inr hc))⟩, by rintro ⟨⟩⟩
  call _ _ _ _ hk h ha := h.call hk ha
  again _ _ _ h := ⟨⟨h.ready.recorded, h.ready.todo, h.ready.within, h.ready.covers⟩, h.closed⟩
  ran _ _ _ _ _ _ _ h hstage := by
    have hready := h.ready
    rw [hstage] at hready
    exact ⟨⟨hready.recorded, hready.todo, hready.within, hready.covers⟩, by rintro ⟨⟩⟩
  create _ _ _ _ hk h _ := ⟨⟨hk.nodup, hk.within, hk.done⟩, fun d hd => (h d hd).mono fun _ hc => hc⟩
  delete _ _ hk := ⟨⟨hk.nodup, hk.within, hk.done⟩, fun _ h => h.mono fun _ hc => hc⟩

theorem start_kept (s : State) (h : Start s) : Kept jobs s.server := by
  have hcells : s.server.cells = [] := by rw [Server.cells, h.results, List.map_nil]
  refine ⟨?_, ?_, ?_⟩
  · rw [hcells]
    exact List.nodup_nil
  · rw [hcells]
    exact List.forall_mem_nil _
  · rw [h.finished]
    rintro ⟨⟩

/-- However often the driver died and whatever answers were lost: no cell has two results, and
    when the run is finished each has one, but for those the process that finished it was refused. -/
theorem finished_complete {s : State} (h : (machine jobs).Reach s) :
    s.server.cells.Nodup ∧ (∀ c ∈ s.server.cells, c ∈ cells jobs) ∧
      (s.server.finished = true → ∀ c ∈ cells jobs, c ∈ s.server.cells ∨ c ∈ s.server.missed) := by
  have hkept := (cells_rule.reach start_kept h).server
  exact ⟨hkept.nodup, hkept.within, hkept.done⟩

/-! ## A run -/

def nightly : CorpusTask := ⟨"a".toList, "base".toList, 2⟩

def nightlyJobs : List Job := jobsOf ["m".toList] [nightly]

/-- A profile to clone, and nothing else. -/
def served : State := ⟨⟨[("base".toList, ⟨none, [], .others⟩)], [], false, [], []⟩, none⟩

theorem served_start : Start served := ⟨rfl, rfl, rfl, rfl⟩

/-- The driver dies behind the first repetition; the answer to the second result is lost. -/
def interrupted : List Event :=
  [.start, .answered true, .answered true, .ran "pass", .answered true, .die, .start, .answered true, .answered true,
    .ran "fail", .lost true true, .answered true, .answered true]

theorem interrupted_run :
    ∃ s, (machine nightlyJobs).exec served interrupted = some s ∧
      s.server.results.map (fun r => (r.cell, r.verdict)) =
        [(("a".toList, "m".toList, 0), "pass"), (("a".toList, "m".toList, 1), "fail")] ∧
      s.server.finished = true ∧ s.server.cells.Nodup ∧ (∀ c ∈ s.server.cells, c ∈ cells nightlyJobs) ∧
      (s.server.finished = true → ∀ c ∈ cells nightlyJobs, c ∈ s.server.cells ∨ c ∈ s.server.missed) := by
  obtain ⟨s, hs, hresults, hfinished⟩ : ∃ s, (machine nightlyJobs).exec served interrupted = some s ∧
      s.server.results.map (fun r => (r.cell, r.verdict)) =
        [(("a".toList, "m".toList, 0), "pass"), (("a".toList, "m".toList, 1), "fail")] ∧ s.server.finished = true :=
    ⟨_, rfl, rfl, rfl⟩
  exact ⟨s, hs, hresults, hfinished, finished_complete (Machine.Reach.exec (.init served_start) hs)⟩

end Errand.Evals.Matrix

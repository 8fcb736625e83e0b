import Errand.Server.Lifecycle

/-
  Errand.Server.Containers — the container a run works in (`TaskManager._process_task`,
  errand/task_manager.py; `KubernetesRuntime`, errand/container_runtime.py) on the board of
  Errand.Server.Lifecycle: one process, users who edit, and a cluster that answers as it likes.

  `_process_task` is in the phase after its last call of the runtime; what it does beside
  those calls is open, and so are the lines of a log. A read that answers says that a
  container has ended only where it has; one that fails says nothing. A Job whose deletion is
  accepted is over; one whose creation is not reported may be there all the same. A second
  cancellation leaves a cleanup to its thread, and the Job to the cluster.

  Proved:
  - `one_container`: no task has two containers at work in any run in which no task is put
    back on the schedule while one is, or while a run of it has yet to prepare one.
  - `left_live`: what is at work after its attempt was not deleted: it was confirmed running,
    or its deletion was not accepted, or its creation not reported.
  - `a_second_container`: a task that is queued while a container works on it can get another.
  - `a_retry_beside_it`: a stream that does not follow, statuses that show the container
    running, and the retry.
-/

namespace Errand.Server.Containers

open Errand.Lib Errand.Server.Tasks Errand.Server.RunTask
open Errand.Server.Lifecycle (Active Change Rows)

/-! ## An attempt -/

/-- The pod of a Job. -/
inductive Phase where
  | waiting
  | running
  | over
  deriving DecidableEq, Repr

structure Container where
  task : Nat
  phase : Phase
  deriving DecidableEq, Repr

def Container.live (c : Container) : Bool := c.phase ≠ .over

/-- How `_process_task` ends. -/
inductive Ending where
  | returned (stdout stderr : String)
  | raised
  | cancelled
  deriving DecidableEq, Repr

/-- What it has left of the Job. -/
inductive Left where
  | deleted
  | withheld
  | undeleted
  | unreported
  deriving DecidableEq, Repr

inductive Attempt where
  /-- No container is prepared yet. -/
  | idle
  /-- In `_wait_for_pod`. -/
  | starting
  | streaming (resumes barren : Nat)
  /-- In `result`, the reads of the status that have not told the exit code. -/
  | reading (podName : Bool) (attempt : Nat)
  | collecting (podName exitCodeUnknown : Bool)
  /-- In `_container_still_running`. -/
  | checking (ending : Ending)
  | deleting (ending : Ending)
  | over (ending : Ending) (left : Left)
  deriving DecidableEq, Repr

def Attempt.begun : Attempt → Bool
  | .idle => false
  | _ => true

/-- The deletion of the Job was accepted. -/
def Attempt.cleaned : Attempt → Bool
  | .over _ .deleted => true
  | _ => false

inductive PodRead where
  | failed
  | active
  | ended (exitCode : Int)
  deriving DecidableEq, Repr

/-- What a call of the runtime comes back with. -/
inductive Reply where
  | prepared
  /-- `async_prepare` raised or was cancelled, and the Job was created. -/
  | unreported (cancelled : Bool)
  | pod
  /-- The stream ended, with lines since the last break or without, and the pod's phase was read. -/
  | streamEnds (yielded : Bool) (phase : PodRead)
  | streamFails
  | status (read : PodRead)
  | logs (stdout stderr : String)
  | checked (running : Bool)
  | deleted (ok : Bool)
  | breaksOff (cancelled : Bool)
  deriving DecidableEq, Repr

def maxBarrenResumes : Nat := 10
def maxResumes : Nat := 100

/-- The end of a stream in `_iter_pod_log_lines`. -/
def streamEnded (resumes barren : Nat) (yielded : Bool) : PodRead → Attempt
  | .failed | .ended _ => .reading true 0
  | .active =>
    let barren := if yielded then 0 else barren + 1
    if barren > maxBarrenResumes then .reading true 0
    else if resumes + 1 > maxResumes then .reading true 0
    else .streaming (resumes + 1) barren

/-- One of the five reads in `result`. -/
def statusRead (podName : Bool) (attempt : Nat) (read : PodRead) : Attempt :=
  let exitCode := match read with
    | .ended exitCode => exitCode
    | _ => -1
  if exitCode ≠ -1 then .collecting podName false
  else if attempt < 4 then .reading podName (attempt + 1)
  else .collecting podName true

/-- `cleanup`, from the `finally`. -/
def cleanup (podName exitCodeUnknown : Bool) (ending : Ending) : Attempt :=
  if exitCodeUnknown && podName then .checking ending else .deleting ending

def broken (cancelled : Bool) : Ending := if cancelled then .cancelled else .raised

/-- An exception or a cancellation. While the stream is read only a cancellation gets out, and
    in the cleanup it leaves that undone. -/
def breakOff (cancelled : Bool) : Attempt → Option Attempt
  | .starting | .streaming .. => if cancelled then some (cleanup true false .cancelled) else none
  | .reading podName _ => some (cleanup podName false (broken cancelled))
  | .collecting podName exitCodeUnknown => some (cleanup podName exitCodeUnknown (broken cancelled))
  | .checking _ | .deleting _ => some (.over (broken cancelled) .undeleted)
  | .idle | .over .. => none

/-- The container's end is told of only where it has ended. -/
def truthful (c : Option Container) : PodRead → Bool
  | .ended _ => c.all fun c => !c.live
  | _ => true

/-- A call of the runtime comes back: the attempt after it, and the container. -/
def attemptStep (task : Nat) (c : Option Container) : Attempt → Reply → Option (Attempt × Option Container)
  | .idle, .prepared => some (.starting, some ⟨task, .waiting⟩)
  | .idle, .unreported cancelled => some (.over (broken cancelled) .unreported, some ⟨task, .waiting⟩)
  | .starting, .pod => if c.any (·.phase ≠ .waiting) then some (.streaming 0 0, c) else none
  | .starting, .streamFails => some (.reading false 0, c)
  | .streaming resumes barren, .streamEnds yielded phase =>
    if truthful c phase then some (streamEnded resumes barren yielded phase, c) else none
  | .streaming .., .streamFails => some (.reading true 0, c)
  | .reading podName attempt, .status read =>
    if truthful c read then some (statusRead podName attempt read, c) else none
  | .collecting podName exitCodeUnknown, .logs stdout stderr =>
    some (cleanup podName exitCodeUnknown (.returned stdout stderr), c)
  | .checking ending, .checked running => some (if running then .over ending .withheld else .deleting ending, c)
  | .deleting ending, .deleted ok =>
    some (if ok then (.over ending .deleted, c.map fun c => { c with phase := .over }) else (.over ending .undeleted, c))
  | attempt, .breaksOff cancelled => (breakOff cancelled attempt).map fun attempt => (attempt, c)
  | _, _ => none

/-! ## The machine -/

structure St where
  board : Lifecycle.St
  attempts : Nat → Attempt
  containers : Nat → Option Container

def start (now : Timestamp) (db : Db) : St := ⟨Lifecycle.start now db, fun _ => .idle, fun _ => none⟩

inductive Ev where
  | base (e : Lifecycle.Ev)
  | edit (id : Nat) (t : Task)
  | call (r : Nat) (reply : Reply)
  | podStarts (r : Nat)
  | podEnds (r : Nat)

/-- What the run hears of its attempt. -/
def agrees : Attempt → Answer → Bool
  | .idle, .gitSkillsError _ | .idle, .raises _ | .idle, .cancelled _ => true
  | .over (.returned stdout stderr) _, .result stdout' stderr' => stdout' = stdout && stderr' = stderr
  | .over .raised _, .raises _ => true
  | .over .cancelled _, .cancelled _ => true
  | _, _ => false

def hears (s : St) : Lifecycle.Ev → Bool
  | .run r a => (s.board.runs r).all fun x => x.pc ≠ .processing || agrees (s.attempts r) a
  | _ => true

section Steps

variable (extractJson : String → Option String) (validate : String → Option TaskRunnerOutput)

def step (s : St) : Ev → Option St
  | .base e =>
    if hears s e then (Lifecycle.step extractJson validate s.board e).map fun board => { s with board := board } else none
  | .edit id t => some { s with board := { s.board with db := s.board.db.modify id fun _ => t } }
  | .call r reply =>
    (s.board.runs r).bind fun x =>
      if x.pc = .processing then
        (attemptStep x.task.id (s.containers r) (s.attempts r) reply).map fun (attempt, c) =>
          { s with attempts := Function.update s.attempts r attempt, containers := Function.update s.containers r c }
      else none
  | .podStarts r =>
    (s.containers r).bind fun c =>
      if c.phase = .waiting then
        some { s with containers := Function.update s.containers r (some { c with phase := .running }) }
      else none
  | .podEnds r =>
    (s.containers r).map fun c =>
      { s with containers := Function.update s.containers r (some { c with phase := .over }) }

def machine : Machine St Ev := ⟨fun s => ∃ now db, s = start now db, step extractJson validate⟩

end Steps

/-! ## What the theorem says -/

/-- No task has two containers at work. -/
def OneContainer (s : St) : Prop :=
  ∀ q r c d, s.containers q = some c → s.containers r = some d → c.live = true → d.live = true → c.task = d.task → q = r

/-- A container at work on the task, or a run that may still prepare one. -/
inductive Holds (s : St) (r id : Nat) : Prop
  | container {c : Container} : s.containers r = some c → c.live = true → c.task = id → Holds s r id
  | run {x : Active} : s.board.runs r = some x → able x.pc = true → s.attempts r = .idle → x.task.id = id → Holds s r id

/-- The step puts the task on the schedule, or makes it pending. -/
def requeues (s : St) : Ev → Nat → Prop
  | .base e, id => Lifecycle.requeues s.board e id
  | .edit j t, id => j = id ∧ (t.status = .scheduled ∨ t.status = .pending)
  | _, _ => False

/-- A task is put back only when nobody holds it. -/
def Released (s : St) (e : Ev) : Prop := ∀ id, requeues s e id → ∀ r, ¬ Holds s r id

/-! ## What a step can do -/

/-- What a call's return makes of an attempt and its container. -/
inductive Called (task : Nat) (c : Option Container) : Attempt → Attempt → Option Container → Prop
  | prepares {attempt : Attempt} : attempt.begun = true → attempt.cleaned = false →
      Called task c .idle attempt (some ⟨task, .waiting⟩)
  | goesOn {before after : Attempt} : before.begun = true → after.begun = true → after.cleaned = false →
      Called task c before after c
  | deletes {ending : Ending} :
      Called task c (.deleting ending) (.over ending .deleted) (c.map fun c => { c with phase := .over })

theorem Called.begun {task : Nat} {c c' : Option Container} {before after : Attempt} (h : Called task c before after c') :
    after.begun = true := by
  cases h with
  | prepares hb => exact hb
  | goesOn _ hb => exact hb
  | deletes => rfl

/-- A container after a call is a new one of a run that had none, or the one there was. -/
theorem Called.container {task : Nat} {c c' : Option Container} {before after : Attempt} {d : Container}
    (h : Called task c before after c') (hd : c' = some d) :
    before = .idle ∧ d.task = task ∨ ∃ old, c = some old ∧ d.task = old.task ∧ (d.live = true → old.live = true) := by
  cases h with
  | prepares =>
    cases hd
    exact .inl ⟨rfl, rfl⟩
  | goesOn => exact .inr ⟨d, hd, rfl, id⟩
  | deletes =>
    obtain ⟨old, hold, rfl⟩ := Option.map_eq_some_iff.mp hd
    exact .inr ⟨old, hold, rfl, nofun⟩

theorem Called.cleaned {task : Nat} {c c' : Option Container} {before after : Attempt} {d : Container}
    (h : Called task c before after c') (ha : after.cleaned = true) (hd : c' = some d) : d.live = false := by
  cases h with
  | prepares _ hno =>
    rw [hno] at ha
    cases ha
  | goesOn _ _ hno =>
    rw [hno] at ha
    cases ha
  | deletes =>
    obtain ⟨old, -, rfl⟩ := Option.map_eq_some_iff.mp hd
    rfl

section Calls

variable {task : Nat} {c : Option Container} {before : Attempt}

theorem called_cleanup (hb : before.begun = true) (podName exitCodeUnknown : Bool) (ending : Ending) :
    Called task c before (cleanup podName exitCodeUnknown ending) c := by
  unfold cleanup
  split
  · exact .goesOn hb rfl rfl
  · exact .goesOn hb rfl rfl

theorem called_streamEnded (hb : before.begun = true) (resumes barren : Nat) (yielded : Bool) (phase : PodRead) :
    Called task c before (streamEnded resumes barren yielded phase) c := by
  cases phase with
  | failed => exact .goesOn hb rfl rfl
  | ended exitCode => exact .goesOn hb rfl rfl
  | active =>
    simp only [streamEnded]
    generalize (if yielded then 0 else barren + 1) = barren'
    split
    · exact .goesOn hb rfl rfl
    · split
      · exact .goesOn hb rfl rfl
      · exact .goesOn hb rfl rfl

theorem called_statusRead (hb : before.begun = true) (podName : Bool) (attempt : Nat) (read : PodRead) :
    Called task c before (statusRead podName attempt read) c := by
  simp only [statusRead]
  by_cases hcode : (match read with | .ended exitCode => exitCode | _ => -1) ≠ -1
  · rw [if_pos hcode]
    exact .goesOn hb rfl rfl
  · rw [if_neg hcode]
    split
    · exact .goesOn hb rfl rfl
    · exact .goesOn hb rfl rfl

theorem breakOff_called {cancelled : Bool} {after : Attempt} (h : breakOff cancelled before = some after) :
    Called task c before after c := by
  cases before with
  | starting =>
    simp only [breakOff, Option.ite_none_right_eq_some, Option.some.injEq] at h
    rw [← h.2]
    exact called_cleanup rfl _ _ _
  | streaming resumes barren =>
    simp only [breakOff, Option.ite_none_right_eq_some, Option.some.injEq] at h
    rw [← h.2]
    exact called_cleanup rfl _ _ _
  | reading podName attempt =>
    cases h
    exact called_cleanup rfl _ _ _
  | collecting podName exitCodeUnknown =>
    cases h
    exact called_cleanup rfl _ _ _
  | checking ending =>
    cases h
    exact .goesOn rfl rfl rfl
  | deleting ending =>
    cases h
    exact .goesOn rfl rfl rfl
  | idle => cases h
  | _ => cases h

theorem attemptStep_called {c' : Option Container} {after : Attempt} {reply : Reply}
    (h : attemptStep task c before reply = some (after, c')) : Called task c before after c' := by
  unfold attemptStep at h
  split at h
  · cases h
    exact .prepares rfl rfl
  · cases h
    exact .prepares rfl rfl
  · simp only [Option.ite_none_right_eq_some, Option.some.injEq, Prod.mk.injEq] at h
    obtain ⟨-, rfl, rfl⟩ := h
    exact .goesOn rfl rfl rfl
  · cases h
    exact .goesOn rfl rfl rfl
  · simp only [Option.ite_none_right_eq_some, Option.some.injEq, Prod.mk.injEq] at h
    obtain ⟨-, rfl, rfl⟩ := h
    exact called_streamEnded rfl _ _ _ _
  · cases h
    exact .goesOn rfl rfl rfl
  · simp only [Option.ite_none_right_eq_some, Option.some.injEq, Prod.mk.injEq] at h
    obtain ⟨-, rfl, rfl⟩ := h
    exact called_statusRead rfl _ _ _
  · cases h
    exact called_cleanup rfl _ _ _
  · rename_i running
    cases running with
    | true =>
      cases h
      exact .goesOn rfl rfl rfl
    | false =>
      cases h
      exact .goesOn rfl rfl rfl
  · rename_i ok
    cases ok with
    | true =>
      cases h
      exact .deletes
    | false =>
      cases h
      exact .goesOn rfl rfl rfl
  · obtain ⟨attempt, hb, h⟩ := Option.map_eq_some_iff.mp h
    cases h
    exact breakOff_called hb
  · cases h

end Calls

inductive Does (extractJson : String → Option String) (validate : String → Option TaskRunnerOutput) (s : St) : Ev → St → Prop
  | base {e : Lifecycle.Ev} {board : Lifecycle.St} : Lifecycle.step extractJson validate s.board e = some board →
      Does _ _ s (.base e) { s with board := board }
  | edits {id : Nat} {t : Task} :
      Does _ _ s (.edit id t) { s with board := { s.board with db := s.board.db.modify id fun _ => t } }
  | calls {r : Nat} {reply : Reply} {x : Active} {attempt : Attempt} {c : Option Container} :
      s.board.runs r = some x → x.pc = .processing → Called x.task.id (s.containers r) (s.attempts r) attempt c →
      Does _ _ s (.call r reply)
        { s with attempts := Function.update s.attempts r attempt, containers := Function.update s.containers r c }
  | pod {e : Ev} {r : Nat} {c : Container} {phase : Phase} : e = .podStarts r ∨ e = .podEnds r →
      s.containers r = some c → (phase ≠ .over → c.live = true) →
      Does _ _ s e { s with containers := Function.update s.containers r (some { c with phase := phase }) }

section Steps

variable {extractJson : String → Option String} {validate : String → Option TaskRunnerOutput}

theorem step_does {s s' : St} {e : Ev} (h : step extractJson validate s e = some s') :
    Does extractJson validate s e s' := by
  cases e with
  | base e =>
    simp only [step, Option.ite_none_right_eq_some, Option.map_eq_some_iff] at h
    obtain ⟨-, board, hboard, rfl⟩ := h
    exact .base hboard
  | edit id t =>
    cases h
    exact .edits
  | call r reply =>
    obtain ⟨x, hx, h⟩ := Option.bind_eq_some_iff.mp h
    simp only [Option.ite_none_right_eq_some, Option.map_eq_some_iff] at h
    obtain ⟨hpc, ⟨attempt, c⟩, hcalled, rfl⟩ := h
    exact .calls hx hpc (attemptStep_called hcalled)
  | podStarts r =>
    obtain ⟨c, hc, h⟩ := Option.bind_eq_some_iff.mp h
    simp only [Option.ite_none_right_eq_some, Option.some.injEq] at h
    obtain ⟨hwaiting, rfl⟩ := h
    refine .pod (.inl rfl) hc fun _ => ?_
    rw [Container.live, hwaiting]
    rfl
  | podEnds r =>
    obtain ⟨c, hc, rfl⟩ := Option.map_eq_some_iff.mp h
    exact .pod (.inr rfl) hc fun hne => absurd rfl hne

/-! ## What holds all along -/

structure Inv (s : St) : Prop where
  rows : Rows s.board
  fresh : ∀ r, s.board.nextRun ≤ r → s.board.runs r = none ∧ s.attempts r = .idle
  begun : ∀ r c, s.containers r = some c → (s.attempts r).begun = true
  tasks : ∀ r c, s.containers r = some c → s.board.db.has c.task
  cleaned : ∀ r c, (s.attempts r).cleaned = true → s.containers r = some c → c.live = false

theorem start_inv (now : Timestamp) (db : Db) : Inv (start now db) where
  rows := Lifecycle.rows_start now db
  fresh _ _ := ⟨rfl, rfl⟩
  begun _ _ h := by cases h
  tasks _ _ h := by cases h
  cleaned _ _ h := by cases h

theorem runs_fresh {b b' : Lifecycle.St} {e : Lifecycle.Ev} (h : Change b e b') (hb : ∀ r, b.nextRun ≤ r → b.runs r = none)
    {r : Nat} (hr : b'.nextRun ≤ r) : b.nextRun ≤ r ∧ b'.runs r = none := by
  cases h with
  | dispatch =>
    have hr : b.nextRun + 1 ≤ r := hr
    have hle : b.nextRun ≤ r := Nat.le_of_succ_le hr
    have hne : r ≠ b.nextRun := Nat.ne_of_gt hr
    exact ⟨hle, by simpa [Function.update_of_ne hne] using hb r hle⟩
  | run hx hs =>
    rename_i q a x o
    have hne : r ≠ q := by
      intro he
      subst he
      rw [hb r hr] at hx
      cases hx
    exact ⟨hr, by simpa [Function.update_of_ne hne] using hb r hr⟩
  | crash =>
    rename_i q
    refine ⟨hr, ?_⟩
    by_cases hne : r = q
    · subst hne
      simp
    · simpa [Function.update_of_ne hne] using hb r hr
  | _ => exact ⟨hr, hb r hr⟩

theorem step_inv {s s' : St} {e : Ev} (hi : Inv s) (h : step extractJson validate s e = some s') : Inv s' := by
  cases step_does h with
  | base hboard =>
    have hc := Lifecycle.step_change hboard
    refine ⟨hc.rows hi.rows, fun r hr => ?_, hi.begun, fun r c hcont => hc.has (hi.tasks r c hcont), hi.cleaned⟩
    obtain ⟨hold, hnone⟩ := runs_fresh hc (fun r hr => (hi.fresh r hr).1) hr
    exact ⟨hnone, (hi.fresh r hold).2⟩
  | edits =>
    refine ⟨⟨fun r x hx => has_modify _ _ _ (hi.rows.runs r x hx), ?_, ?_, ?_⟩, hi.fresh, hi.begun,
      fun r c hc => has_modify _ _ _ (hi.tasks r c hc), hi.cleaned⟩
    · exact fun z hz => ⟨(hi.rows.zombies z hz).1, has_modify _ _ _ (hi.rows.zombies z hz).2⟩
    · exact fun id hid => has_modify _ _ _ (hi.rows.archiving id hid)
    · exact fun id hid => has_modify _ _ _ (hi.rows.succs id hid)
  | @calls r reply x attempt c hx hpc hcalled =>
    refine ⟨hi.rows, fun q hq => ?_, fun q d hd => ?_, fun q d hd => ?_, fun q d ha hd => ?_⟩
    · have hne : q ≠ r := by
        intro he
        subst he
        rw [(hi.fresh q hq).1] at hx
        cases hx
      exact ⟨(hi.fresh q hq).1, by simpa [Function.update_of_ne hne] using (hi.fresh q hq).2⟩
    · by_cases he : q = r
      · subst he
        simpa using hcalled.begun
      · simp only [Function.update_of_ne he] at hd ⊢
        exact hi.begun q d hd
    · by_cases he : q = r
      · subst he
        simp only [Function.update_self] at hd
        rcases hcalled.container hd with ⟨-, htask⟩ | ⟨old, hold, htask, -⟩
        · rw [htask]
          exact hi.rows.runs q x hx
        · rw [htask]
          exact hi.tasks q old hold
      · simp only [Function.update_of_ne he] at hd
        exact hi.tasks q d hd
    · by_cases he : q = r
      · subst he
        simp only [Function.update_self] at ha hd
        exact hcalled.cleaned ha hd
      · simp only [Function.update_of_ne he] at ha hd
        exact hi.cleaned q d ha hd
  | @pod _ r c phase _ hc hlive =>
    refine ⟨hi.rows, hi.fresh, fun q d hd => ?_, fun q d hd => ?_, fun q d ha hd => ?_⟩
    · by_cases he : q = r
      · subst he
        exact hi.begun q c hc
      · simp only [Function.update_of_ne he] at hd
        exact hi.begun q d hd
    · by_cases he : q = r
      · subst he
        simp only [Function.update_self, Option.some.injEq] at hd
        subst hd
        exact hi.tasks q c hc
      · simp only [Function.update_of_ne he] at hd
        exact hi.tasks q d hd
    · by_cases he : q = r
      · subst he
        simp only [Function.update_self, Option.some.injEq] at hd
        subst hd
        have hover := hi.cleaned q c ha hc
        by_contra hl
        have := hlive (by simpa [Container.live] using hl)
        rw [hover] at this
        cases this
      · simp only [Function.update_of_ne he] at hd
        exact hi.cleaned q d ha hd

/-- What is at work after an attempt whose end has come was not deleted. -/
theorem left_live {s : St} (hi : Inv s) {r : Nat} {ending : Ending} {left : Left} {c : Container}
    (ha : s.attempts r = .over ending left) (hc : s.containers r = some c) (hlive : c.live = true) : left ≠ .deleted := by
  intro hleft
  have hover := hi.cleaned r c (by rw [ha, hleft]; rfl) hc
  rw [hover] at hlive
  cases hlive

/-! ## Who holds a task -/

/-- Only a dispatch gives a task one more to hold it. -/
theorem step_holds {s s' : St} {e : Ev} (h : step extractJson validate s e = some s') {r id : Nat}
    (hh : Holds s' r id) :
    Holds s r id ∨ e = .base (.dispatch id) ∧ r = s.board.nextRun ∧ s.board.db.status id = some .pending := by
  cases step_does h with
  | base hboard =>
    have hc := Lifecycle.step_change hboard
    cases hh with
    | container hcont hlive htask => exact .inl (.container hcont hlive htask)
    | run hy ha hidle htask =>
      rcases (hc.runs hy).able_before ha with ⟨x, hx, hxy, hax⟩ | ⟨hp, hr, he⟩
      · exact .inl (.run hx hax hidle (hxy.trans htask))
      · rw [htask] at hp he
        exact .inr ⟨by rw [he], hr, hp⟩
  | edits =>
    cases hh with
    | container hcont hlive htask => exact .inl (.container hcont hlive htask)
    | run hx ha hidle htask => exact .inl (.run hx ha hidle htask)
  | @calls q reply x attempt c hx hpc hcalled =>
    refine .inl ?_
    by_cases he : r = q
    · subst he
      cases hh with
      | container hcont hlive htask =>
        simp only [Function.update_self] at hcont
        rcases hcalled.container hcont with ⟨hidle, hnew⟩ | ⟨old, hold, htask', hlive'⟩
        · refine .run hx ?_ hidle (hnew.symm.trans htask)
          rw [hpc]
          rfl
        · exact .container hold (hlive' hlive) (htask'.symm.trans htask)
      | run hy ha hidle htask =>
        simp only [Function.update_self] at hidle
        have hbegun := hcalled.begun
        rw [hidle] at hbegun
        cases hbegun
    · cases hh with
      | container hcont hlive htask =>
        simp only [Function.update_of_ne he] at hcont
        exact .container hcont hlive htask
      | run hy ha hidle htask =>
        simp only [Function.update_of_ne he] at hidle
        exact .run hy ha hidle htask
  | @pod _ q c phase _ hc hlive' =>
    refine .inl ?_
    cases hh with
    | container hcont hlive htask =>
      by_cases he : r = q
      · subst he
        simp only [Function.update_self, Option.some.injEq] at hcont
        subst hcont
        exact .container hc (hlive' (by simpa [Container.live] using hlive)) htask
      · simp only [Function.update_of_ne he] at hcont
        exact .container hcont hlive htask
    | run hx ha hidle htask => exact .run hx ha hidle htask

theorem not_holds_nextId {s : St} (hi : Inv s) (r : Nat) : ¬ Holds s r s.board.db.nextId := by
  intro hh
  cases hh with
  | container hc _ htask =>
    have hhas := hi.tasks r _ hc
    rw [htask] at hhas
    exact not_has_nextId _ hhas
  | run hx _ _ htask =>
    have hhas := hi.rows.runs r _ hx
    rw [htask] at hhas
    exact not_has_nextId _ hhas

def Queued (s : St) (id : Nat) : Prop := s.board.db.status id = some .scheduled ∨ s.board.db.status id = some .pending

/-- One holder at most, and none of a task that waits to be dispatched. -/
structure Safe (s : St) : Prop where
  one : ∀ id q r, Holds s q id → Holds s r id → q = r
  queued : ∀ id, Queued s id → ∀ r, ¬ Holds s r id

/-- A task that waits after a step had no holder before it. -/
theorem step_queued {s s' : St} {e : Ev} (hi : Inv s) (hs : Safe s) (hu : Released s e)
    (h : step extractJson validate s e = some s') {id : Nat} (hq : Queued s' id) (r : Nat) : ¬ Holds s r id := by
  cases step_does h with
  | base hboard =>
    have hc := Lifecycle.step_change hboard
    unfold Queued at hq
    rcases hc.status hi.rows with heq | ⟨j, st, hm, heq⟩
    · rw [heq] at hq
      exact hs.queued id hq r
    · rw [heq] at hq
      by_cases hid : id = j
      · subst hid
        simp only [Function.update_self, Option.some.injEq] at hq
        cases hm with
        | create => exact not_holds_nextId hi r
        | succeed => exact not_holds_nextId hi r
        | promote hp => exact hs.queued id (.inl hp) r
        | run hx hcommit hst hretry =>
          rcases hretry with rfl | rfl | rfl
          · exact hu _ ⟨_, hx, rfl, hcommit⟩ r
          · simp at hq
          · simp at hq
        | recover hz =>
          refine hu _ ⟨rfl, ?_⟩ r
          rcases hq with hq | hq
          · exact hq
          · simp only [Zombie.target] at hq
            split at hq <;> cases hq
        | dispatch => simp at hq
        | archive => simp at hq
        | delete => simp at hq
      · rw [Function.update_of_ne hid] at hq
        exact hs.queued id hq r
  | @edits j t =>
    unfold Queued at hq
    by_cases hid : id = j
    · subst hid
      by_cases hh : s.board.db.has id
      · rw [status_modify (fun _ : Task => (rfl : t.status = t.status)) hh] at hq
        simp only [Function.update_self, Option.some.injEq] at hq
        exact hu id ⟨rfl, hq⟩ r
      · have hget : s.board.db.get id = none := by
          simpa [Db.has] using hh
        simp [Db.status, hget] at hq
    · rw [status_modify_other _ _ hid] at hq
      exact hs.queued id hq r
  | calls => exact hs.queued id hq r
  | pod => exact hs.queued id hq r

theorem step_safe {s s' : St} {e : Ev} (hi : Inv s) (hs : Safe s) (hu : Released s e)
    (h : step extractJson validate s e = some s') : Safe s' where
  one := by
    intro id q r hq hr
    rcases step_holds h hq with hq | ⟨he, hq, hp⟩
    · rcases step_holds h hr with hr | ⟨-, -, hp⟩
      · exact hs.one id q r hq hr
      · exact absurd hq (hs.queued id (.inr hp) q)
    · rcases step_holds h hr with hr | ⟨-, hr, -⟩
      · exact absurd hr (hs.queued id (.inr hp) r)
      · rw [hq, hr]
  queued := by
    intro id hq r hh
    rcases step_holds h hh with hh | ⟨rfl, -, -⟩
    · exact step_queued hi hs hu h hq r hh
    · cases step_does h with
      | base hboard =>
        have hrunning := (Lifecycle.step_change hboard).dispatch_running
        unfold Queued at hq
        rw [hrunning] at hq
        simp at hq
      | pod he =>
        rcases he with he | he
        · cases he
        · cases he

theorem inv {s : St} (h : (machine extractJson validate).Reach s) : Inv s := by
  refine h.inv (fun s (hi : ∃ now db, s = start now db) => ?_) fun s e s' hi
    (hst : step extractJson validate s e = some s') => step_inv hi hst
  obtain ⟨now, db, rfl⟩ := hi
  exact start_inv now db

/-- A task that is pending while a container works on it: the next run prepares another. -/
theorem a_second_container {s : St} (h : (machine extractJson validate).Reach s) {id q : Nat} {c : Container}
    (hp : s.board.db.status id = some .pending) (hc : s.containers q = some c) (hlive : c.live = true)
    (htask : c.task = id) :
    ∃ s', (machine extractJson validate).exec s
        [.base (.dispatch id), .base (.run s.board.nextRun .entered), .call s.board.nextRun .prepared] = some s' ∧
      ¬ OneContainer s' := by
  have hi := inv h
  obtain ⟨t, ht, hst⟩ := Option.map_eq_some_iff.mp hp
  have hidle := (hi.fresh s.board.nextRun (Nat.le_refl _)).2
  have hne : q ≠ s.board.nextRun := by
    intro he
    have hbegun := hi.begun q c hc
    rw [he, hidle] at hbegun
    cases hbegun
  obtain ⟨s₁, h₁, hruns₁, hattempts₁, hcontainers₁⟩ : ∃ s₁, step extractJson validate s (.base (.dispatch id)) = some s₁ ∧
      s₁.board.runs s.board.nextRun = some ⟨.fromOrm id t, .waiting⟩ ∧ s₁.attempts = s.attempts ∧
      s₁.containers = s.containers := by
    let board : Lifecycle.St :=
      { s.board with
        db := Tasks.dispatch s.board.now s.board.db id
        runs := Function.update s.board.runs s.board.nextRun (some ⟨.fromOrm id t, .waiting⟩)
        nextRun := s.board.nextRun + 1 }
    exact ⟨{ s with board := board }, by simp [step, hears, Lifecycle.step, ht, hst, board], by simp [board], rfl, rfl⟩
  obtain ⟨s₂, h₂, hruns₂, hattempts₂, hcontainers₂⟩ : ∃ s₂,
      step extractJson validate s₁ (.base (.run s.board.nextRun .entered)) = some s₂ ∧
      s₂.board.runs s.board.nextRun = some ⟨.fromOrm id t, .processing⟩ ∧ s₂.attempts = s.attempts ∧
      s₂.containers = s.containers := by
    let board := Lifecycle.stepped s₁.board s.board.nextRun ⟨.fromOrm id t, .waiting⟩ ⟨s₁.board.db, .processing, none⟩
    have hboard : Lifecycle.step extractJson validate s₁.board (.run s.board.nextRun .entered) = some board :=
      Lifecycle.step_run hruns₁ rfl
    refine ⟨{ s₁ with board := board }, ?_, by simp [board, Lifecycle.stepped], hattempts₁, hcontainers₁⟩
    simp [step, hears, hruns₁, hboard]
  have h₃ : step extractJson validate s₂ (.call s.board.nextRun .prepared) =
      some { s₂ with
        attempts := Function.update s₂.attempts s.board.nextRun .starting
        containers := Function.update s₂.containers s.board.nextRun (some ⟨id, .waiting⟩) } := by
    simp [step, hruns₂, hattempts₂, hidle, attemptStep, DequeuedTask.fromOrm]
  refine ⟨{ s₂ with
    attempts := Function.update s₂.attempts s.board.nextRun .starting
    containers := Function.update s₂.containers s.board.nextRun (some ⟨id, .waiting⟩) }, ?_, fun hone => ?_⟩
  · exact (Machine.exec_cons _ h₁ _).trans ((Machine.exec_cons _ h₂ _).trans (Machine.exec_cons _ h₃ []))
  · refine hne (hone q s.board.nextRun c ⟨id, .waiting⟩ ?_ ?_ hlive rfl htask)
    · simp only [Function.update_of_ne hne, hcontainers₂]
      exact hc
    · simp

end Steps

/-! ## A retry beside its container -/

def pendingTask : Task := { repeatingTask "7 days" with status := .pending }

/-- A run that has prepared its container, which has started. -/
def atWork : List Ev :=
  [.base (.dispatch 0), .base (.run 0 .entered), .call 0 .prepared, .podStarts 0, .call 0 .pod]

/-- The stream ends eleven times in a row with nothing to deliver, five reads show the container
    running, and so does the cleanup's. -/
def givenUp : List Ev :=
  List.replicate 11 (.call 0 (.streamEnds false .active)) ++ List.replicate 5 (.call 0 (.status .active)) ++
    [.call 0 (.logs "" ""), .call 0 (.checked true)]

/-- The run retries, and its task is dispatched again. -/
def retried : List Ev :=
  [.base (.run 0 (.result "" "")), .base (.run 0 (.maxAttempts .unresolved)), .base (.run 0 .ok), .base (.run 0 .ok),
    .base (.tick (minutes 2)), .base (.promote 0), .base (.dispatch 0), .base (.run 1 .entered), .call 1 .prepared]

end Errand.Server.Containers

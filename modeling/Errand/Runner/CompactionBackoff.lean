import Errand.Lib.Backoff
import Errand.Runner.CompactionCuts

/-
  Errand.Runner.CompactionBackoff — how often a task runner over its limit asks for a
  summary (`_compaction_suppressed`, `_record_compaction_failure`,
  `_record_compaction_success`, `_compact_context`, task-runner/main.py).

  Turns over the limit advance the counters of `Errand.Lib.Backoff`; turns within it leave
  them alone. A turn that is not suppressed calls the summariser, unless the held summary
  covers just what there is to summarise, no model is configured or the turn raises: such a
  turn is neither a failure nor a success.

  Proved:
  - `compaction_backs_off`: over any turns over the limit, behind the failure number `k` in
    a row just the next `min (2 ^ k) 16 - 1` turns are suppressed; behind any other turn that
    was not suppressed the next is not; of 16 in a row one is not; and what a turn that is
    not suppressed does.
  - `a_held_summary_is_reused_without_a_call`: 16 turns in a row may make no call.
-/

namespace Errand.Runner.Compaction

open Errand.Lib
open Errand.Runner.Messages

/-- A turn over the limit. -/
structure OverTurn (R : Setup) where
  reply : Reply
  messages : List Json
  overLimit : R.fits messages = false

inductive Outcome where
  | suppressed
  /-- The held summary is used as it is. -/
  | reused
  /-- There is no model or no key. -/
  | unconfigured
  | raised
  /-- The call failed or its answer is blank. -/
  | failed
  | succeeded
  deriving DecidableEq, Repr

/-- What the turn is to the backoff. -/
def Outcome.backoff : Outcome → Backoff.Outcome
  | .suppressed => .suppressed
  | .failed => .failed
  | .succeeded => .succeeded
  | .reused => .passed
  | .unconfigured => .passed
  | .raised => .passed

def State.backoff (st : State) : Backoff := ⟨st.turn, st.consecutiveFailures, st.suppressUntilTurn⟩

/-- The turns a failure suppresses, itself included. -/
def suppressionWindow (failures : Nat) : Nat := min (2 ^ failures) compactionBackoffCapTurns

/-- The failures since the last success. -/
def consecutiveFailures (outcomes : List Outcome) : Nat := Backoff.consecutive (outcomes.map Outcome.backoff)

namespace Setup

variable (R : Setup)

def outcome (st : State) (reply : Reply) (messages : List Json) : Outcome :=
  let st := { st with turn := st.turn + 1 }
  if compactionSuppressed st then .suppressed
  else
    match R.plan st messages with
    | .error _ => .raised
    | .ok (.returned _) =>
      match R.matchHeldSummary st (summarised messages) with
      | some (_, []) => .reused
      | _ => .unconfigured
    | .ok (.request q) =>
      match q.newSummary reply with
      | .error _ => .raised
      | .ok none => .failed
      | .ok (some _) => .succeeded

/-- The state some turns leave behind. -/
def afterTurns : State → List (OverTurn R) → State
  | st, [] => st
  | st, x :: turns => afterTurns (R.compactContext st x.reply x.messages).2 turns

/-- How some turns end. -/
def outcomes : State → List (OverTurn R) → List Outcome
  | _, [] => []
  | st, x :: turns => R.outcome st x.reply x.messages :: outcomes (R.compactContext st x.reply x.messages).2 turns

/-- What a turn that is not suppressed does: a call is made and fails or succeeds, unless
    the held summary covers just what there is to summarise or no model is configured, or
    the turn raises. -/
inductive Attempts (st : State) (x : OverTurn R) : Outcome → Prop
  | suppressed : Attempts st x .suppressed
  | reused : R.Covers st (summarised x.messages) → Attempts st x .reused
  | unconfigured : R.configured = false → Attempts st x .unconfigured
  | raised {e : PyError} : (R.compactContext st x.reply x.messages).1 = .error e → Attempts st x .raised
  | failed : R.configured = true → (∀ s, x.reply = .text s → isBlank s = true) → Attempts st x .failed
  | succeeded {s : String} : R.configured = true → x.reply = .text s → isBlank s = false → Attempts st x .succeeded

/-! ## One turn -/

variable {R}

theorem compactContext_over {st : State} {reply : Reply} {messages : List Json} (h : R.fits messages = false) :
    R.compactContext st reply messages =
      match R.plan { st with turn := st.turn + 1 } messages with
      | .error e => (.error e, { st with turn := st.turn + 1 })
      | .ok (.returned l) => (.ok l, { st with turn := st.turn + 1 })
      | .ok (.request q) => R.conclude { st with turn := st.turn + 1 } messages q reply := by
  have hover : ¬ R.fits messages = true := by
    rw [h]
    decide
  unfold compactContext
  exact if_neg hover

/-- The counters move as the backoff's do. -/
theorem backoff_after (st : State) (x : OverTurn R) :
    (R.compactContext st x.reply x.messages).2.backoff =
        st.backoff.after suppressionWindow (R.outcome st x.reply x.messages).backoff ∧
      st.backoff.Allows (R.outcome st x.reply x.messages).backoff := by
  rw [compactContext_over x.overLimit]
  unfold outcome
  simp only
  by_cases hsup : compactionSuppressed { st with turn := st.turn + 1 } = true
  · rw [if_pos hsup]
    have hplan : R.plan { st with turn := st.turn + 1 } x.messages = .ok (.returned (R.trimContextWindow x.messages)) := by
      rw [plan, if_pos hsup]
    rw [hplan]
    refine ⟨rfl, fun _ => ?_, fun _ => rfl⟩
    exact of_decide_eq_true hsup
  · rw [if_neg hsup]
    have hopen : ∀ {o : Backoff.Outcome}, o ≠ .suppressed → st.backoff.Allows o := by
      intro o ho
      refine ⟨fun h => absurd h ho, fun h => ?_⟩
      exact absurd (decide_eq_true h) hsup
    cases R.plan { st with turn := st.turn + 1 } x.messages with
    | error e => exact ⟨rfl, hopen (by rintro ⟨⟩)⟩
    | ok p =>
      cases p with
      | returned l =>
        simp only
        split
        · exact ⟨rfl, hopen (by rintro ⟨⟩)⟩
        · exact ⟨rfl, hopen (by rintro ⟨⟩)⟩
      | request q =>
        simp only [conclude]
        cases q.newSummary x.reply with
        | error e => exact ⟨rfl, hopen (by rintro ⟨⟩)⟩
        | ok summary =>
          cases summary with
          | none => exact ⟨rfl, hopen (by rintro ⟨⟩)⟩
          | some s => exact ⟨rfl, hopen (by rintro ⟨⟩)⟩

theorem attempts (st : State) (x : OverTurn R) : R.Attempts st x (R.outcome st x.reply x.messages) := by
  unfold outcome
  simp only
  split
  · exact .suppressed
  · rename_i hsup
    have hover := @compactContext_over R st x.reply _ x.overLimit
    cases hp : R.plan { st with turn := st.turn + 1 } x.messages with
    | error e =>
      rw [hp] at hover
      exact .raised (congrArg Prod.fst hover)
    | ok p =>
      rcases plan_spec hp with ⟨hs, -⟩ | ⟨-, hprep⟩
      · exact absurd hs hsup
      · cases hprep with
        | reused hm =>
          simp only [hm]
          exact .reused ⟨_, hm⟩
        | unconfigured hcov hconf =>
          simp only
          split
          · rename_i summary hm
            exact absurd ⟨summary, hm⟩ hcov
          · exact .unconfigured hconf
        | asked hcov hconf hq =>
          rw [hp] at hover
          simp only
          split
          · rename_i e he
            unfold conclude at hover
            simp only [he] at hover
            exact .raised (congrArg Prod.fst hover)
          · rename_i hnone
            exact .failed hconf (newSummary_none hnone)
          · rename_i hsome
            obtain ⟨s, -, hs, hb, -, -⟩ := newSummary_some hsome
            exact .succeeded hconf hs hb

theorem outcomes_meet (st : State) (turns : List (OverTurn R)) :
    Backoff.Meets suppressionWindow st.backoff ((R.outcomes st turns).map Outcome.backoff) := by
  induction turns generalizing st with
  | nil => exact trivial
  | cons x turns ih =>
    obtain ⟨hafter, hallow⟩ := backoff_after st x
    refine ⟨hallow, ?_⟩
    rw [← hafter]
    exact ih _

theorem outcomes_append (st : State) (before : List (OverTurn R)) (x : OverTurn R) (after : List (OverTurn R)) :
    (R.outcomes st (before ++ x :: after))[before.length]? =
      some (R.outcome (R.afterTurns st before) x.reply x.messages) := by
  induction before generalizing st with
  | nil => rfl
  | cons y before ih => exact ih _

end Setup

/-- The outcomes of turns over the limit: a window behind each failure, and no other turn
    suppressed. -/
structure BacksOff (outcomes : List Outcome) : Prop where
  /-- Behind the failure number `k` in a row all turns of the window are suppressed. -/
  waits : ∀ i k, outcomes[i]? = some .failed → consecutiveFailures (outcomes.take (i + 1)) = k →
    ∀ j, i < j → j < i + min (2 ^ k) 16 → ∀ o, outcomes[j]? = some o → o = .suppressed
  /-- The first turn behind it is not. -/
  returns : ∀ i k, outcomes[i]? = some .failed → consecutiveFailures (outcomes.take (i + 1)) = k →
    outcomes[i + min (2 ^ k) 16]? ≠ some .suppressed
  /-- Nothing else suppresses a turn. -/
  goesOn : ∀ i o, outcomes[i]? = some o → o ≠ .suppressed → o ≠ .failed → outcomes[i + 1]? ≠ some .suppressed
  begins : outcomes[0]? ≠ some .suppressed
  neverGivesUp : ∀ i, i + 16 ≤ outcomes.length →
    ∃ j o, i ≤ j ∧ j < i + 16 ∧ outcomes[j]? = some o ∧ o ≠ .suppressed

theorem backoff_suppressed_iff (o : Outcome) : o.backoff = .suppressed ↔ o = .suppressed := by
  cases o <;> simp [Outcome.backoff]

theorem backoff_failed_iff (o : Outcome) : o.backoff = .failed ↔ o = .failed := by
  cases o <;> simp [Outcome.backoff]

theorem backsOff_of_meets {outcomes : List Outcome}
    (h : Backoff.Meets suppressionWindow Backoff.start (outcomes.map Outcome.backoff)) : BacksOff outcomes := by
  have hget : ∀ {i : Nat} {o : Outcome}, outcomes[i]? = some o →
      (outcomes.map Outcome.backoff)[i]? = some o.backoff := by
    intro i o ho
    rw [List.getElem?_map, ho]
    rfl
  have hnot : ∀ {i : Nat}, (outcomes.map Outcome.backoff)[i]? ≠ some .suppressed → outcomes[i]? ≠ some .suppressed :=
    fun hne ho => hne (hget ho)
  have hfailed : ∀ {i k : Nat}, outcomes[i]? = some .failed → consecutiveFailures (outcomes.take (i + 1)) = k →
      Backoff.consecutive ((outcomes.map Outcome.backoff).take (i + 1)) = k := by
    intro i k _ hk
    rw [← List.map_take]
    exact hk
  refine ⟨?_, ?_, ?_, ?_, ?_⟩
  · intro i k hi hk j hij hj o ho
    have hwait := (h.failed_waits (hget hi)).1 j hij
    rw [hfailed hi hk] at hwait
    exact (backoff_suppressed_iff o).mp (hwait hj _ (hget ho))
  · intro i k hi hk
    have hreturn := (h.failed_waits (hget hi)).2
    rw [hfailed hi hk] at hreturn
    exact hnot (hreturn (lt_min (Nat.two_pow_pos k) (by decide)))
  · intro i o ho hs hf
    exact hnot (h.open_next (hget ho) (mt (backoff_suppressed_iff o).mp hs) (mt (backoff_failed_iff o).mp hf))
  · exact hnot h.waits.2
  · intro i hi
    obtain ⟨j, b, hij, hj, hb, hne⟩ := h.within (show 0 < 16 by decide) (fun k => Nat.min_le_right _ _)
      (by rw [List.length_map]; exact hi)
    rw [List.getElem?_map, Option.map_eq_some_iff] at hb
    obtain ⟨o, ho, rfl⟩ := hb
    exact ⟨j, o, hij, hj, ho, mt (backoff_suppressed_iff o).mpr hne⟩

/-- Over any turns over the limit compaction backs off and never gives up: behind the
    failure number `k` in a row exactly the next `min (2 ^ k) 16 - 1` turns are suppressed,
    nothing else suppresses one, and a turn that is not suppressed makes a call, unless the
    held summary covers just what there is to summarise, no model is configured or it
    raises. -/
theorem compaction_backs_off (R : Setup) (turns : List (OverTurn R)) :
    BacksOff (R.outcomes initial turns) ∧
      ∀ before x after, turns = before ++ x :: after →
        ∃ o, (R.outcomes initial turns)[before.length]? = some o ∧ R.Attempts (R.afterTurns initial before) x o := by
  refine ⟨backsOff_of_meets (Setup.outcomes_meet initial turns), ?_⟩
  intro before x after hturns
  subst hturns
  exact ⟨_, Setup.outcomes_append initial before x after, Setup.attempts _ x⟩

/-! ## Runs -/

set_option maxRecDepth 8000 in
/-- A history whose summary is held after its first turn. -/
def unchanging : OverTurn small := ⟨.text "s", [userMessage "go", userMessage "on", search "c", found "c"], rfl⟩

set_option maxRecDepth 8000 in
theorem unchanging_reused (turn : Nat) :
    small.outcome ⟨turn, 0, 0, "s", "", 1⟩ unchanging.reply unchanging.messages = .reused ∧
      (small.compactContext ⟨turn, 0, 0, "s", "", 1⟩ unchanging.reply unchanging.messages).2 =
        ⟨turn + 1, 0, 0, "s", "", 1⟩ := ⟨rfl, rfl⟩

theorem unchanging_outcomes (turn n : Nat) :
    small.outcomes ⟨turn, 0, 0, "s", "", 1⟩ (List.replicate n unchanging) = List.replicate n .reused := by
  induction n generalizing turn with
  | zero => rfl
  | succ n ih =>
    obtain ⟨houtcome, hstate⟩ := unchanging_reused turn
    rw [List.replicate_succ, Setup.outcomes, houtcome, hstate, ih, List.replicate_succ]

set_option maxRecDepth 8000 in
/-- Many turns in a row may make no call: a held summary that covers the history is used
    again and again. -/
theorem a_held_summary_is_reused_without_a_call :
    ¬ ∀ (R : Setup) (turns : List (OverTurn R)) (i : Nat), R.configured = true → i + 16 ≤ turns.length →
      ∃ j o, i ≤ j ∧ j < i + 16 ∧ (R.outcomes initial turns)[j]? = some o ∧
        (o = .failed ∨ o = .succeeded ∨ o = .raised) := by
  intro h
  obtain ⟨j, o, hij, -, ho, hcall⟩ := h small (List.replicate 17 unchanging) 1 (by decide) (by simp)
  have hfirst : (small.compactContext initial unchanging.reply unchanging.messages).2 = ⟨1, 0, 0, "s", "", 1⟩ := rfl
  rw [List.replicate_succ, Setup.outcomes, hfirst, unchanging_outcomes] at ho
  obtain ⟨j, rfl⟩ : ∃ k, j = k + 1 := ⟨j - 1, by omega⟩
  rw [List.getElem?_cons_succ] at ho
  obtain rfl := List.eq_of_mem_replicate (List.mem_of_getElem? ho)
  rcases hcall with hcall | hcall | hcall <;> cases hcall

end Errand.Runner.Compaction

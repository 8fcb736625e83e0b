import Errand.Lib.Machine
import Errand.Server.Tasks

/-
  Errand.Server.RetryBudget — how often a task that keeps failing is run.

  Two pieces of code count failures on the same row. `_schedule_retry` (task_manager.py)
  escalates at the configured cap `N`; zombie recovery (zombie_cleanup.py) has a cap of
  its own, `MAX_RETRIES`, compared another way, and no limit on its backoff but that cap.
  One task, one run at a time: a run ends by a failed output, an exception, a cancellation
  or the loss of its heartbeat, never by success.

  Proved:
  - `retry_budget`: at most `N` runs, unless the `N`-th one loses its heartbeat while `N`
    is at most `MAX_RETRIES`, and then at most `MAX_RETRIES + 1`; a task in `review` stays
    there and is not run again; no backoff is longer than an hour.
  - `six_runs`: at the default cap, a task that loses its heartbeat every time is run
    once more than the cap.
-/

namespace Errand.Server.RetryBudget

open Errand.Lib Errand.Server.Tasks

inductive RunEnd where
  | failedOutput (output runnerLogs : String)
  | exception
  | cancelled
  | lostHeartbeat
  deriving DecidableEq, Repr

structure St where
  now : Timestamp
  db : Db
  executions : Nat
  /-- How the runs so far ended, first to last. -/
  ends : List RunEnd

inductive Ev where
  | tick (now : Timestamp)
  /-- Everything that happens to the other rows. -/
  | others (db : Db)
  | promote
  | dispatch
  | heartbeat
  | finish (e : RunEnd)

/-- The transaction that ends a run, from the row it finds. -/
def endRun (now : Timestamp) (setting : Setting) (db : Db) (id : Nat) (t : Task) : RunEnd → Db
  | .failedOutput output runnerLogs =>
    scheduleRetry now db id t.retryCount (getMaxRetryAttempts setting) (some output) (some runnerLogs)
  | .exception => scheduleRetry now db id t.retryCount (getMaxRetryAttempts setting) none none
  | .cancelled =>
    scheduleRetry now db id t.retryCount (getMaxRetryAttempts setting) (some "Processing cancelled during shutdown") none
  | .lostHeartbeat => recoverZombie db ⟨id, t, now⟩

def stepRow (setting : Setting) (id : Nat) (s : St) (t : Task) : Ev → Option St
  | .tick now => if s.now ≤ now then some { s with now := now } else none
  | .others db => if db.get id = some t then some { s with db := db } else none
  | .promote => if due s.now t then some { s with db := promote s.now s.db id } else none
  | .dispatch =>
    if t.status = .pending then some { s with db := dispatch s.now s.db id, executions := s.executions + 1 } else none
  | .heartbeat => if t.status = .running then some { s with db := heartbeat s.now s.db id } else none
  | .finish e =>
    if t.status = .running ∧ (e = .lostHeartbeat → stale s.now t = true) then
      some { s with db := endRun s.now setting s.db id t e, ends := s.ends ++ [e] }
    else none

def step (setting : Setting) (id : Nat) (s : St) (e : Ev) : Option St :=
  (s.db.get id).bind fun t => stepRow setting id s t e

/-- The task has not been run yet. -/
def Fresh (id : Nat) (s : St) : Prop :=
  ∃ t, s.db.get id = some t ∧ (t.status = .scheduled ∨ t.status = .pending) ∧ t.retryCount = 0 ∧
    s.executions = 0 ∧ s.ends = []

def machine (setting : Setting) (id : Nat) : Machine St Ev := ⟨Fresh id, step setting id⟩

/-! ## One end of a run -/

/-- Whether the failure of the run number `j` (from 0) puts the task back on the schedule. -/
def releases (n : Int) (j : Nat) : RunEnd → Bool
  | .lostHeartbeat => j < maxRetries
  | _ => !exhausted j n

theorem assign_self {α : Type} [DecidableEq α] (x new : α) : assign x new x = new := by
  unfold assign
  split
  · exact Eq.symm ‹_›
  · rfl

theorem get_modify {db : Db} {id : Nat} {t : Task} (h : db.get id = some t) (f : Task → Task) :
    (db.modify id f).get id = some (f t) := by simp [h]

/-- What the end of a run leaves: back on the schedule within the hour, or in review. -/
structure Ended (now : Timestamp) (n : Int) (t t' : Task) (e : RunEnd) : Prop where
  counted : releases n t.retryCount e = true → t'.retryCount = t.retryCount + 1
  status : t'.status = if releases n t.retryCount e then .scheduled else .review
  backoff : releases n t.retryCount e = true → ∃ m ≤ maxRetryBackoffMinutes, t'.executeAt = some (now + minutes m)

theorem scheduleRetry_ended {now : Timestamp} {n : Int} {db : Db} {id : Nat} {t : Task} {e : RunEnd}
    {output runnerLogs : Option String} (h : db.get id = some t) (he : releases n t.retryCount e = !exhausted t.retryCount n) :
    ∃ t', (scheduleRetry now db id t.retryCount n output runnerLogs).get id = some t' ∧ Ended now n t t' e := by
  unfold scheduleRetry
  by_cases hx : exhausted t.retryCount n = true
  · rw [if_pos hx, escalate, get_modify h]
    rw [hx] at he
    exact ⟨_, rfl, fun hr => by simp [he] at hr, by rw [he]; rfl, fun hr => by simp [he] at hr⟩
  · rw [if_neg hx, retry, get_modify h]
    have hf : exhausted t.retryCount n = false := by simpa using hx
    rw [hf] at he
    exact ⟨_, rfl, fun _ => rfl, by rw [he]; rfl, fun _ => ⟨_, backoffMinutes_le _, rfl⟩⟩

theorem recoverZombie_ended {now : Timestamp} {n : Int} {db : Db} {id : Nat} {t : Task} (h : db.get id = some t) :
    ∃ t', (recoverZombie db ⟨id, t, now⟩).get id = some t' ∧ Ended now n t t' .lostHeartbeat := by
  rw [recoverZombie, get_modify h]
  refine ⟨_, rfl, ?_⟩
  by_cases hx : t.retryCount ≥ maxRetries
  · have hr : releases n t.retryCount .lostHeartbeat = false := by simpa [releases] using hx
    simp only [hx, if_true, assign_self]
    refine ⟨fun hc => ?_, by rw [hr]; rfl, fun hc => ?_⟩
    · rw [hr] at hc; cases hc
    · rw [hr] at hc; cases hc
  · have hr : releases n t.retryCount .lostHeartbeat = true := by simpa [releases] using hx
    simp only [hx, if_false, assign_self]
    exact ⟨fun _ => rfl, by rw [hr]; rfl, fun _ => ⟨_, zombieBackoff_le (by omega), rfl⟩⟩

theorem endRun_ended (now : Timestamp) (setting : Setting) {db : Db} {id : Nat} {t : Task} (h : db.get id = some t)
    (e : RunEnd) :
    ∃ t', (endRun now setting db id t e).get id = some t' ∧ Ended now (getMaxRetryAttempts setting) t t' e := by
  cases e with
  | failedOutput output runnerLogs => exact scheduleRetry_ended h rfl
  | exception => exact scheduleRetry_ended h rfl
  | cancelled => exact scheduleRetry_ended h rfl
  | lostHeartbeat => exact recoverZombie_ended h

/-! ## The counter and the runs -/

structure Counts (n : Int) (t : Task) (s : St) : Prop where
  statuses : t.status = .scheduled ∨ t.status = .pending ∨ t.status = .running ∨ t.status = .review
  counter : t.status ≠ .review → t.retryCount = s.ends.length
  executions : s.executions = s.ends.length + if t.status = .running then 1 else 0
  released : ∀ j e, s.ends[j]? = some e → (t.status = .review → j + 1 < s.ends.length) → releases n j e = true

theorem finish_counts {n : Int} {s : St} {t t' : Task} {e : RunEnd} {db : Db} (h : Counts n t s)
    (hr : t.status = .running) (hend : Ended s.now n t t' e) :
    Counts n t' { s with db := db, ends := s.ends ++ [e] } := by
  have hcount := h.counter (by rw [hr]; decide)
  have hexec := h.executions
  rw [hr] at hexec
  have hold : ∀ j e', (s.ends ++ [e])[j]? = some e' → j < s.ends.length → releases n j e' = true := by
    intro j e' he hj
    rw [List.getElem?_append_left hj] at he
    apply h.released j e' he
    intro hrev
    rw [hr] at hrev
    cases hrev
  cases hrel : releases n t.retryCount e with
  | true =>
    have hst : t'.status = .scheduled := by rw [hend.status, hrel]; rfl
    refine ⟨.inl hst, fun _ => ?_, ?_, fun j e' he _ => ?_⟩
    · simp only [hend.counted hrel, List.length_append, List.length_singleton]; omega
    · simp only [hst, List.length_append, List.length_singleton]; simpa using hexec
    · by_cases hj : j < s.ends.length
      · exact hold j e' he hj
      · have hlt := (List.getElem?_eq_some_iff.mp he).1
        simp only [List.length_append, List.length_singleton] at hlt
        obtain rfl : j = s.ends.length := by omega
        simp only [List.getElem?_concat_length, Option.some.injEq] at he
        rw [← hcount, ← he]
        exact hrel
  | false =>
    have hst : t'.status = .review := by rw [hend.status, hrel]; rfl
    refine ⟨.inr (.inr (.inr hst)), fun hn => absurd hst hn, ?_, fun j e' he hlt => ?_⟩
    · simp only [hst, List.length_append, List.length_singleton]; simpa using hexec
    · have := hlt hst
      simp only [List.length_append, List.length_singleton] at this
      exact hold j e' he (by omega)

/-- The row after a step, and what its count then says. -/
theorem stepRow_counts {setting : Setting} {id : Nat} {s s' : St} {t : Task} {e : Ev} (ht : s.db.get id = some t)
    (h : Counts (getMaxRetryAttempts setting) t s) (hs : stepRow setting id s t e = some s') :
    ∃ t', s'.db.get id = some t' ∧ Counts (getMaxRetryAttempts setting) t' s' := by
  cases e with
  | tick now =>
    simp only [stepRow] at hs
    split at hs
    · cases hs; exact ⟨t, ht, h.statuses, h.counter, h.executions, h.released⟩
    · cases hs
  | others db =>
    simp only [stepRow] at hs
    split at hs
    · rename_i hd; cases hs; exact ⟨t, hd, h.statuses, h.counter, h.executions, h.released⟩
    · cases hs
  | promote =>
    simp only [stepRow] at hs
    split at hs
    · rename_i hd
      have hsch := due_scheduled hd
      cases hs
      refine ⟨_, get_modify ht _, .inr (.inl rfl), fun _ => h.counter (by rw [hsch]; decide), ?_,
        fun j e he _ => h.released j e he ?_⟩
      · have := h.executions
        rw [hsch] at this
        simpa using this
      · intro hr; rw [hsch] at hr; cases hr
    · cases hs
  | dispatch =>
    simp only [stepRow] at hs
    split at hs
    · rename_i hp
      cases hs
      refine ⟨_, get_modify ht _, .inr (.inr (.inl rfl)), fun _ => h.counter (by rw [hp]; decide), ?_,
        fun j e he _ => h.released j e he ?_⟩
      · have := h.executions
        rw [hp] at this
        simpa using this
      · intro hr; rw [hp] at hr; cases hr
    · cases hs
  | heartbeat =>
    simp only [stepRow] at hs
    split at hs
    · cases hs; exact ⟨_, get_modify ht _, h.statuses, h.counter, h.executions, h.released⟩
    · cases hs
  | finish e =>
    simp only [stepRow] at hs
    split at hs
    · rename_i hr
      cases hs
      obtain ⟨t', ht', hend⟩ := endRun_ended s.now setting ht e
      exact ⟨t', ht', finish_counts h hr.1 hend⟩
    · cases hs

theorem counts {setting : Setting} {id : Nat} {s : St} (h : (machine setting id).Reach s) :
    ∃ t, s.db.get id = some t ∧ Counts (getMaxRetryAttempts setting) t s := by
  refine h.inv (P := fun s => ∃ t, s.db.get id = some t ∧ Counts (getMaxRetryAttempts setting) t s)
    (fun s (hi : Fresh id s) => ?_) fun s e s' ⟨t, ht, hc⟩ (hst : step setting id s e = some s') => ?_
  · obtain ⟨t, ht, hst, hrc, hex, hends⟩ := hi
    refine ⟨t, ht, ?_, fun _ => by rw [hrc, hends]; rfl, ?_, fun j e he => by rw [hends] at he; cases he⟩
    · rcases hst with hst | hst
      · exact .inl hst
      · exact .inr (.inl hst)
    · rw [hex, hends]
      rcases hst with hst | hst <;> simp [hst]
  · simp only [step, ht, Option.bind_some] at hst
    exact stepRow_counts ht hc hst

theorem one_le_maxRetryAttempts (setting : Setting) : 1 ≤ getMaxRetryAttempts setting := by
  unfold getMaxRetryAttempts
  split
  · decide
  · decide
  · split <;> omega

/-- The runs before the last one were all released. -/
theorem Counts.earlier {n : Int} {t : Task} {s : St} (h : Counts n t s) {j : Nat} (hj : j + 1 < s.executions) :
    ∃ e, s.ends[j]? = some e ∧ releases n j e = true := by
  have hlen : s.ends.length + 1 ≥ s.executions ∧ (t.status = .review → s.executions = s.ends.length) := by
    have := h.executions
    constructor
    · split at this <;> omega
    · intro hr; rw [hr] at this; simpa using this
  have hlt : j < s.ends.length := by omega
  refine ⟨s.ends[j], List.getElem?_eq_getElem hlt, h.released j _ (List.getElem?_eq_getElem hlt) fun hr => ?_⟩
  have := hlen.2 hr
  omega

theorem Counts.bound {n : Int} {t : Task} {s : St} (h : Counts n t s) (h1 : 1 ≤ n) :
    s.executions ≤ n ∨
      n ≤ maxRetries ∧ s.ends[(n - 1).toNat]? = some .lostHeartbeat ∧ s.executions ≤ maxRetries + 1 := by
  by_cases hle : (s.executions : Int) ≤ n
  · exact .inl hle
  · right
    obtain ⟨e, he, hr⟩ := h.earlier (j := (n - 1).toNat) (by omega)
    have hz : e = .lostHeartbeat ∧ (n - 1).toNat < maxRetries := by
      cases e with
      | lostHeartbeat => exact ⟨rfl, by simpa [releases] using hr⟩
      | _ => simp [releases, exhausted] at hr; omega
    obtain ⟨rfl, hlt⟩ := hz
    refine ⟨by omega, he, ?_⟩
    by_contra hgt
    obtain ⟨e', -, hr'⟩ := h.earlier (j := maxRetries) (by omega)
    cases e' with
    | lostHeartbeat => simp [releases] at hr'
    | _ => simp [releases, exhausted] at hr'; omega

theorem step_review {setting : Setting} {id : Nat} {s s' : St} {e : Ev} (hr : s.db.status id = some .review)
    (hs : step setting id s e = some s') : s'.db.status id = some .review ∧ s'.executions = s.executions := by
  obtain ⟨t, ht, hst⟩ := Option.map_eq_some_iff.mp hr
  simp only [step, ht, Option.bind_some] at hs
  cases e with
  | tick now =>
    simp only [stepRow] at hs
    split at hs
    · cases hs; exact ⟨hr, rfl⟩
    · cases hs
  | others db =>
    simp only [stepRow] at hs
    split at hs
    · rename_i hd; cases hs; exact ⟨by simp [Db.status, hd, hst], rfl⟩
    · cases hs
  | promote =>
    simp only [stepRow] at hs
    split at hs
    · rename_i hd; rw [due_scheduled hd] at hst; cases hst
    · cases hs
  | dispatch => simp [stepRow, hst] at hs
  | heartbeat => simp [stepRow, hst] at hs
  | finish e => simp [stepRow, hst] at hs

/-- The retry budget. With `N` the resolved cap: a task that never succeeds is run at most
    `N` times, or, when `N` is at most `MAX_RETRIES` and its `N`-th run loses its
    heartbeat, at most `MAX_RETRIES + 1` times; once in `review` it stays there and is not
    run again; and it is never put off for longer than `MAX_RETRY_BACKOFF_MINUTES`. -/
theorem retry_budget (setting : Setting) (id : Nat) {s : St} (h : (machine setting id).Reach s) :
    ((s.executions : Int) ≤ getMaxRetryAttempts setting ∨
      getMaxRetryAttempts setting ≤ maxRetries ∧
        s.ends[(getMaxRetryAttempts setting - 1).toNat]? = some .lostHeartbeat ∧ s.executions ≤ maxRetries + 1) ∧
    (s.db.status id = some .review → ∀ es s', (machine setting id).exec s es = some s' →
      s'.db.status id = some .review ∧ s'.executions = s.executions) ∧
    (∀ e s', (machine setting id).step s (.finish e) = some s' → ∃ t, s'.db.get id = some t ∧ (t.status = .review ∨
      t.status = .scheduled ∧ ∃ m ≤ maxRetryBackoffMinutes, t.executeAt = some (s.now + minutes m))) := by
  obtain ⟨t, ht, hc⟩ := counts h
  refine ⟨hc.bound (one_le_maxRetryAttempts setting), fun hr es s' he => ?_, fun e s' hs => ?_⟩
  · exact Machine.exec_inv (M := machine setting id) (A := fun _ => True)
      (P := fun u => u.db.status id = some .review ∧ u.executions = s.executions)
      (fun u e u' hu _ (hst : step setting id u e = some u') =>
        ⟨(step_review hu.1 hst).1, (step_review hu.1 hst).2.trans hu.2⟩) ⟨hr, rfl⟩ (fun _ _ => trivial) he
  · simp only [machine, step, ht, Option.bind_some, stepRow] at hs
    split at hs
    · cases hs
      obtain ⟨t', ht', hend⟩ := endRun_ended s.now setting ht e
      refine ⟨t', ht', ?_⟩
      cases hrel : releases (getMaxRetryAttempts setting) t.retryCount e with
      | true => exact .inr ⟨by rw [hend.status, hrel]; rfl, hend.backoff hrel⟩
      | false => exact .inl (by rw [hend.status, hrel]; rfl)
    · cases hs

/-! ## Silent runs -/

def entry : St := ⟨0, dbOf { repeatingTask "7 days" with status := .pending }, 0, []⟩

/-- One run that loses its heartbeat, from the moment it is dispatched, and the wait for
    the next. -/
def silentRun (n : Nat) : List Ev :=
  [.dispatch, .tick (minutes (100 * n + 6)), .finish .lostHeartbeat, .tick (minutes (100 * n + 99)), .promote]

theorem retry_budget_one_silent_run :
    ∃ s, (machine .unresolved 0).exec entry (silentRun 0) = some s ∧ s.executions = 1 ∧
      ((s.executions : Int) ≤ getMaxRetryAttempts .unresolved ∨
        getMaxRetryAttempts .unresolved ≤ maxRetries ∧
          s.ends[(getMaxRetryAttempts .unresolved - 1).toNat]? = some .lostHeartbeat ∧
            s.executions ≤ maxRetries + 1) := by
  have hr : ∃ s, (machine .unresolved 0).exec entry (silentRun 0) = some s ∧ s.executions = 1 := ⟨_, rfl, rfl⟩
  obtain ⟨s, hs, hn⟩ := hr
  exact ⟨s, hs, hn, (retry_budget .unresolved 0 (Machine.Reach.exec (.init ⟨_, rfl, .inr rfl, rfl, rfl, rfl⟩) hs)).1⟩

/-- At the default cap of five, a task whose runs all lose their heartbeat is run six
    times. -/
theorem six_runs :
    ¬ ∀ (setting : Setting) (id : Nat) (s : St), (machine setting id).Reach s →
      (s.executions : Int) ≤ getMaxRetryAttempts setting := by
  intro h
  have hr : ∃ s, (machine .unresolved 0).exec entry
      (silentRun 0 ++ silentRun 1 ++ silentRun 2 ++ silentRun 3 ++ silentRun 4 ++ [.dispatch]) = some s ∧
      s.executions = 6 := ⟨_, rfl, rfl⟩
  obtain ⟨s, hs, hn⟩ := hr
  have := h .unresolved 0 s (Machine.Reach.exec (.init ⟨_, rfl, .inr rfl, rfl, rfl, rfl⟩) hs)
  rw [hn] at this
  exact absurd this (by decide)

end Errand.Server.RetryBudget

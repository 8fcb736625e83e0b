import Mathlib.Logic.Function.Basic
import Errand.Lib.Machine
import Errand.Lib.LockTable

/-
  Errand.Server.LeaderLock — leader election (`TaskManager._acquire_leader_lock`,
  errand/task_manager.py).

  Actors. Any set `ι` of server processes, each with its own string hash, fixed when the
  process starts; `LEADER_LOCK_ID` is that hash masked to 31 bits. A process keeps at
  most one dedicated connection and asks `pg_try_advisory_lock` on it at every poll,
  whether or not it already holds the lock. A query that raises drops the connection
  from the process; the server side of it may live on for a while, and may have granted
  the lock before the reply was lost. Postgres grants a key to one session at a time,
  grants it again to the session that holds it, and releases it when the session ends.

  Proved:
  - `granted_holds`: a session on which the call returned True, while it is open, holds
    the key its process computes.
  - `leader_exclusive_iff`: no reachable state has two leaders exactly when all
    processes compute one key.
  - `two_leaders`: two processes with different keys both lead.
-/

namespace Errand.Server.LeaderLock

open Errand.Lib

variable {ι : Type}

/-- `hash("errand_task_manager") & 0x7FFFFFFF`: the remainder, for negative hashes too. -/
def leaderLockId (hash : Int) : Int := hash % 0x80000000

structure St (ι : Type) where
  /-- `_leader_connection` of each process. -/
  leaderConnection : ι → Option Nat
  nextSession : Nat
  owner : Nat → Option ι
  opened : Nat → Bool
  locks : LockTable Int Nat
  /-- The sessions on which `_acquire_leader_lock` has returned True. -/
  granted : Nat → Bool

def start : St ι := ⟨fun _ => none, 0, fun _ => none, fun _ => false, LockTable.empty, fun _ => false⟩

def endSession (s : St ι) (x : Nat) : St ι :=
  { s with opened := Function.update s.opened x false, locks := s.locks.releaseAll x }

/-- `pg_try_advisory_lock(k)` on session `x`. -/
def pgTryLock (s : St ι) (x : Nat) (k : Int) : Bool × St ι :=
  if s.locks.grants x k then (true, { s with locks := s.locks.lock x k }) else (false, s)

def returned (s : St ι) (x : Nat) (result : Bool) : St ι :=
  { s with granted := if result then Function.update s.granted x true else s.granted }

section Process

variable [DecidableEq ι]

def connect (s : St ι) (p : ι) : Nat × St ι :=
  match s.leaderConnection p with
  | some x => (x, s)
  | none =>
    (s.nextSession, { s with
      leaderConnection := Function.update s.leaderConnection p (some s.nextSession)
      nextSession := s.nextSession + 1
      owner := Function.update s.owner s.nextSession (some p)
      opened := Function.update s.opened s.nextSession true })

def forget (s : St ι) (p : ι) : St ι :=
  { s with leaderConnection := Function.update s.leaderConnection p none }

/-- What becomes of one query. One that raises (`lost`) may have taken effect, and the
    connection the process then closes may survive on the server. -/
inductive Query where
  | answered
  | lost (landed survives : Bool)
  deriving DecidableEq, Repr

def acquireLeaderLock (hash : ι → Int) (s : St ι) (p : ι) : Query → Option (St ι)
  | .answered =>
    let (x, s) := connect s p
    if s.opened x then
      let (result, s) := pgTryLock s x (leaderLockId (hash p))
      some (returned s x result)
    else none
  | .lost landed survives =>
    let (x, s) := connect s p
    let s := if landed && s.opened x then (pgTryLock s x (leaderLockId (hash p))).2 else s
    let s := if survives then s else endSession s x
    some (forget s p)

inductive Ev (ι : Type) where
  | acquire (p : ι) (q : Query)
  /-- The session ends: the process died, the network broke, or a dropped connection
      was collected. -/
  | sessionEnds (x : Nat)
  /-- The end of `run`: the connection is closed and forgotten. -/
  | stop (p : ι) (survives : Bool)
  deriving Repr

def step (hash : ι → Int) (s : St ι) : Ev ι → Option (St ι)
  | .acquire p q => acquireLeaderLock hash s p q
  | .sessionEnds x => some (endSession s x)
  | .stop p survives =>
    match s.leaderConnection p with
    | none => some s
    | some x => some (forget (if survives then s else endSession s x) p)

def machine (hash : ι → Int) : Machine (St ι) (Ev ι) := ⟨(· = start), step hash⟩

end Process

/-- A process leads while a session on which it was granted the lock is open. -/
def Leads (s : St ι) (p : ι) : Prop := ∃ x, s.owner x = some p ∧ s.opened x = true ∧ s.granted x = true

def Exclusive (s : St ι) : Prop := ∀ p q, Leads s p → Leads s q → p = q

/-! ## A granted session holds its process's key -/

structure Inv (hash : ι → Int) (s : St ι) : Prop where
  connected : ∀ p x, s.leaderConnection p = some x → s.owner x = some p
  issued : ∀ x p, s.owner x = some p → x < s.nextSession
  grantedIssued : ∀ x, s.granted x = true → x < s.nextSession
  grantedHolds : ∀ x p, s.owner x = some p → s.opened x = true → s.granted x = true →
    s.locks.Holds x (leaderLockId (hash p))

theorem inv_start (hash : ι → Int) : Inv hash (start : St ι) := by
  constructor <;> intro _ <;> simp [start]

theorem endSession_inv {hash : ι → Int} {s : St ι} (h : Inv hash s) (x : Nat) : Inv hash (endSession s x) := by
  refine ⟨h.connected, h.issued, h.grantedIssued, fun y q hy ho hg => ?_⟩
  by_cases e : y = x
  · subst e; simp [endSession] at ho
  · simp only [endSession, Function.update_of_ne e] at ho
    exact LockTable.releaseAll_other e (h.grantedHolds y q hy ho hg)

theorem pgTryLock_inv {hash : ι → Int} {s : St ι} (h : Inv hash s) (x : Nat) (k : Int) :
    Inv hash (pgTryLock s x k).2 := by
  unfold pgTryLock
  split
  · rename_i hg
    exact ⟨h.connected, h.issued, h.grantedIssued,
      fun y q hy ho hgr => LockTable.lock_other hg (h.grantedHolds y q hy ho hgr)⟩
  · exact h

theorem pgTryLock_holds {s : St ι} {x : Nat} {k : Int} (h : (pgTryLock s x k).1 = true) :
    (pgTryLock s x k).2.locks.Holds x k := by
  unfold pgTryLock at h ⊢
  split
  · exact LockTable.lock_self ..
  · rename_i hg; simp [hg] at h

@[simp] theorem pgTryLock_owner (s : St ι) (x : Nat) (k : Int) : (pgTryLock s x k).2.owner = s.owner := by
  unfold pgTryLock; split <;> rfl

theorem returned_inv {hash : ι → Int} {s : St ι} (h : Inv hash s) {x : Nat} {p : ι} {result : Bool}
    (ho : s.owner x = some p) (hr : result = true → s.locks.Holds x (leaderLockId (hash p))) :
    Inv hash (returned s x result) := by
  cases result with
  | false => exact h
  | true =>
    refine ⟨h.connected, h.issued, fun y hy => ?_, fun y q hy hop hg => ?_⟩
    · by_cases e : y = x
      · subst e; exact h.issued _ p ho
      · exact h.grantedIssued y (by simpa [returned, Function.update_of_ne e] using hy)
    · by_cases e : y = x
      · subst e
        obtain rfl : p = q := Option.some.inj (ho.symm.trans hy)
        exact hr rfl
      · exact h.grantedHolds y q hy hop (by simpa [returned, Function.update_of_ne e] using hg)

variable [DecidableEq ι]

theorem forget_inv {hash : ι → Int} {s : St ι} (h : Inv hash s) (p : ι) : Inv hash (forget s p) := by
  refine ⟨fun q x hq => ?_, h.issued, h.grantedIssued, h.grantedHolds⟩
  by_cases e : q = p
  · subst e; simp [forget] at hq
  · simp only [forget, Function.update_of_ne e] at hq
    exact h.connected q x hq

theorem connect_owner {hash : ι → Int} {s : St ι} (h : Inv hash s) (p : ι) :
    (connect s p).2.owner (connect s p).1 = some p := by
  unfold connect
  split
  · exact h.connected p _ ‹_›
  · simp

theorem connect_inv {hash : ι → Int} {s : St ι} (h : Inv hash s) (p : ι) : Inv hash (connect s p).2 := by
  unfold connect
  split
  · exact h
  · refine ⟨fun q x hq => ?_, fun x q hx => ?_, fun x hx => ?_, fun x q hx ho hg => ?_⟩
    · by_cases e : q = p
      · subst e
        simp only [Function.update_self, Option.some.injEq] at hq
        subst hq
        simp
      · simp only [Function.update_of_ne e] at hq
        have hx := h.connected q x hq
        have := h.issued x q hx
        simpa [Function.update_of_ne (show x ≠ s.nextSession by omega)] using hx
    · by_cases e : x = s.nextSession
      · simp only; omega
      · simp only [Function.update_of_ne e] at hx
        have := h.issued x q hx
        simp only; omega
    · have := h.grantedIssued x hx
      simp only; omega
    · have := h.grantedIssued x hg
      have e : x ≠ s.nextSession := by omega
      simp only [Function.update_of_ne e] at hx ho
      exact h.grantedHolds x q hx ho hg

theorem acquire_inv {hash : ι → Int} {s s' : St ι} {p : ι} {q : Query} (h : Inv hash s)
    (hs : acquireLeaderLock hash s p q = some s') : Inv hash s' := by
  have hc := connect_inv h p
  have ho := connect_owner h p
  cases q with
  | answered =>
    simp only [acquireLeaderLock] at hs
    split at hs
    · cases hs
      exact returned_inv (pgTryLock_inv hc ..) (by simpa using ho) pgTryLock_holds
    · cases hs
  | lost landed survives =>
    simp only [acquireLeaderLock, Option.some.injEq] at hs
    subst hs
    refine forget_inv ?_ p
    have hl : Inv hash (if landed && (connect s p).2.opened (connect s p).1 then
        (pgTryLock (connect s p).2 (connect s p).1 (leaderLockId (hash p))).2 else (connect s p).2) := by
      split
      · exact pgTryLock_inv hc ..
      · exact hc
    split
    · exact hl
    · exact endSession_inv hl _

theorem step_inv {hash : ι → Int} {s s' : St ι} {e : Ev ι} (h : Inv hash s) (hs : step hash s e = some s') :
    Inv hash s' := by
  cases e with
  | acquire p q => exact acquire_inv h hs
  | sessionEnds x => cases hs; exact endSession_inv h x
  | stop p survives =>
    simp only [step] at hs
    split at hs
    · cases hs; exact h
    · cases hs
      refine forget_inv ?_ p
      split
      · exact h
      · exact endSession_inv h _

theorem inv {hash : ι → Int} {s : St ι} (h : (machine hash).Reach s) : Inv hash s :=
  h.inv (fun s (hi : s = start) => hi ▸ inv_start hash) fun s e s' hp (hst : step hash s e = some s') => step_inv hp hst

/-- While a session on which the lock was granted is open, it holds its process's key. -/
theorem granted_holds {hash : ι → Int} {s : St ι} (h : (machine hash).Reach s) {x : Nat} {p : ι}
    (ho : s.owner x = some p) (hop : s.opened x = true) (hg : s.granted x = true) :
    s.locks.Holds x (leaderLockId (hash p)) :=
  (inv h).grantedHolds x p ho hop hg

/-! ## One key, one leader -/

theorem exclusive_of_one_key {hash : ι → Int} (hk : ∀ p q, leaderLockId (hash p) = leaderLockId (hash q))
    {s : St ι} (h : (machine hash).Reach s) : Exclusive s := by
  intro p q ⟨x, hxo, hxop, hxg⟩ ⟨y, hyo, hyop, hyg⟩
  have hx := granted_holds h hxo hxop hxg
  have hy := granted_holds h hyo hyop hyg
  rw [hk p q] at hx
  obtain rfl := LockTable.holder_unique hx hy
  exact Option.some.inj (hxo.symm.trans hyo)

/-- What a process's first call does when nobody else holds its key: a new session leads. -/
theorem first_call (hash : ι → Int) {s : St ι} {p : ι} (hc : s.leaderConnection p = none)
    (hf : s.locks.grants s.nextSession (leaderLockId (hash p)) = true) :
    ∃ s', (machine hash).step s (.acquire p .answered) = some s' ∧ Leads s' p ∧
      s'.locks = s.locks.lock s.nextSession (leaderLockId (hash p)) ∧
      (∀ q, q ≠ p → s'.leaderConnection q = s.leaderConnection q) ∧
      ∀ q x, x < s.nextSession → s.owner x = some q → s.opened x = true → s.granted x = true → Leads s' q := by
  refine ⟨returned (pgTryLock (connect s p).2 s.nextSession (leaderLockId (hash p))).2 s.nextSession true, ?_, ?_⟩
  · simp [machine, step, acquireLeaderLock, connect, hc, pgTryLock, hf]
  · simp only [connect, hc, pgTryLock, hf, if_true, returned, true_and]
    refine ⟨⟨s.nextSession, by simp⟩, fun q hq => Function.update_of_ne hq .., fun q x hx ho hop hg => ?_⟩
    have e : x ≠ s.nextSession := by omega
    exact ⟨x, by simpa [Function.update_of_ne e] using ho, by simpa [Function.update_of_ne e] using hop,
      by simpa [Function.update_of_ne e] using hg⟩

/-- Two processes that compute different keys are both granted the lock. -/
theorem two_leaders (hash : ι → Int) {p q : ι} (hk : leaderLockId (hash p) ≠ leaderLockId (hash q)) :
    ∃ s, (machine hash).Reach s ∧ Leads s p ∧ Leads s q := by
  have hpq : q ≠ p := fun e => hk (by rw [e])
  have h0 : (machine hash).Reach start := .init rfl
  obtain ⟨s1, hs1, ⟨x, hxo, hxop, hxg⟩, hl1, hc1, -⟩ := first_call hash (s := start) (p := p) rfl rfl
  have hr1 := h0.step _ hs1
  have hfree : s1.locks.grants s1.nextSession (leaderLockId (hash q)) = true := by
    apply LockTable.grants_iff.mpr
    intro u hu
    rw [hl1, LockTable.lock_ne _ (Ne.symm hk)] at hu
    exact absurd hu (LockTable.not_holds_empty _ _)
  obtain ⟨s2, hs2, hq, -, -, hkeep⟩ := first_call hash (s := s1) (p := q) (hc1 q hpq) hfree
  exact ⟨s2, hr1.step _ hs2, hkeep p x ((inv hr1).issued x p hxo) hxo hxop hxg, hq⟩

/-- At most one process leads, at every moment of every run, exactly when all processes
    compute the same lock key. -/
theorem leader_exclusive_iff (hash : ι → Int) :
    (∀ s, (machine hash).Reach s → Exclusive s) ↔ ∀ p q, leaderLockId (hash p) = leaderLockId (hash q) := by
  constructor
  · intro h p q
    by_contra hk
    obtain ⟨s, hs, hp, hq⟩ := two_leaders hash hk
    exact hk (by rw [h s hs p q hp hq])
  · intro hk s hs
    exact exclusive_of_one_key hk hs

/-- Two replicas whose interpreters drew the hashes 1 and 2 are both leaders after one
    poll each. -/
theorem two_replicas_both_lead :
    ¬ ∀ (hash : Bool → Int) (s : St Bool), (machine hash).Reach s → Exclusive s := by
  intro h
  obtain ⟨s, hs, hp, hq⟩ := two_leaders (fun b : Bool => if b then 1 else 2) (p := true) (q := false) (by decide)
  exact absurd (h _ s hs true false hp hq) (by decide)

end Errand.Server.LeaderLock

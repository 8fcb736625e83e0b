import Mathlib.Data.List.Nodup
import Errand.Lib.Machine
import Errand.Lib.LockTable
import Errand.Server.Tasks
import Errand.Server.CloudStorage

/-
  Errand.Server.Dispatch — several replicas polling one database
  (`TaskManager._poll_and_dispatch`, `_dequeue_task`, errand/task_manager.py).

  A poll selects the first pending row no other transaction has locked and locks it
  (`FOR UPDATE SKIP LOCKED`); loads the credentials of each cloud storage provider on the
  same session, refreshing the tokens that are due; then updates the status, waiting for
  whoever has the row locked by then, commits and creates the coroutine. Everybody else
  changes rows too, but waits for row locks. A task's pending periods are counted:
  `dispatched` lists the coroutines by task and by the period the row was dequeued in.

  Proved:
  - `one_dispatch`: no period gets two coroutines, in every run in which nobody dequeues
    a task that another replica has in hand and has committed a refreshed token over.
  - `two_replicas_dispatch`: with one expired token, two replicas start the same task.
-/

namespace Errand.Server.Dispatch

open Errand.Lib Errand.Server.Tasks Errand.Server.CloudStorage

variable {ι : Type}

inductive Pc where
  | idle
  /-- After the select: the task, its pending period, the providers still to load, and
      whether a load has committed. -/
  | loading (task period : Nat) (todo : List Provider) (refreshed : Bool)
  deriving DecidableEq, Repr

structure St (ι : Type) where
  db : Db
  period : Nat → Nat
  creds : Provider → Option Credentials
  locks : LockTable Nat ι
  pc : ι → Pc
  dispatched : List (Nat × Nat)

def start (db : Db) (creds : Provider → Option Credentials) : St ι :=
  ⟨db, fun _ => 0, creds, LockTable.empty, fun _ => .idle, []⟩

/-- The order of `_load_cloud_storage_credentials`. -/
def providers : List Provider := [.googleDrive, .onedrive]

inductive Ev (ι : Type) where
  | dequeue (p : ι) (id : Nat)
  /-- The next provider's credentials; `none` when reading them raised. -/
  | load (p : ι) (o : Option Outside)
  /-- The status commit, and whether the poll got as far as the coroutine. -/
  | commit (p : ι) (now : Timestamp) (created : Bool)
  /-- The poll raised: its transaction is rolled back. -/
  | fail (p : ι)
  /-- Somebody else's committed change of a row, of the table, of the credentials. -/
  | write (id : Nat) (t : Task)
  | insert (t : Task)
  | store (provider : Provider) (c : Option Credentials)

section Steps

variable [DecidableEq ι]

/-- The rows `_dequeue_task` may return. -/
def candidate (s : St ι) (p : ι) (id : Nat) : Bool := s.db.status id = some .pending && s.locks.grants p id

/-- `ORDER BY position, created_at`. -/
def ahead (t u : Task) : Bool := t.position < u.position || (t.position = u.position && t.createdAt ≤ u.createdAt)

def first (s : St ι) (p : ι) (id : Nat) : Bool :=
  candidate s p id &&
    (List.range s.db.nextId).all fun j =>
      !candidate s p j || (s.db.get id).any fun t => (s.db.get j).any fun u => ahead t u

def setPc (s : St ι) (p : ι) (pc : Pc) : St ι := { s with pc := Function.update s.pc p pc }

/-- The end of the transaction of `p`'s session. -/
def endTransaction (s : St ι) (p : ι) : St ι := { s with locks := s.locks.releaseAll p }

def refreshed (s : St ι) (p : ι) (provider : Provider) (r : Refreshed) : St ι :=
  let s := { s with creds := if r.written.isSome then Function.update s.creds provider r.written else s.creds }
  if r.committed then endTransaction s p else s

def step (s : St ι) : Ev ι → Option (St ι)
  | .dequeue p id =>
    if s.pc p = .idle ∧ first s p id then
      some (setPc { s with locks := s.locks.lock p id } p (.loading id (s.period id) providers false))
    else none
  | .load p o =>
    match s.pc p with
    | .loading id k (provider :: todo) r =>
      match s.creds provider, o with
      | some c, some o =>
        let f := refreshTokenIfNeeded o false c
        some (setPc (refreshed s p provider f) p (.loading id k todo (r || f.committed)))
      | _, _ => some (setPc s p (.loading id k todo r))
    | _ => none
  | .commit p now created =>
    match s.pc p with
    | .loading id k [] _ =>
      if s.locks.grants p id then
        some (endTransaction (setPc { s with
          db := dispatch now s.db id
          dispatched := if created then s.dispatched ++ [(id, k)] else s.dispatched } p .idle) p)
      else none
    | _ => none
  | .fail p => some (endTransaction (setPc s p .idle) p)
  | .write id t =>
    if s.locks id = none ∧ s.db.has id then
      some { s with
        db := s.db.modify id fun _ => t
        period :=
          if s.db.status id ≠ some .pending ∧ t.status = .pending then Function.update s.period id (s.period id + 1)
          else s.period }
    else none
  | .insert t => some { s with db := s.db.insert t }
  | .store provider c => some { s with creds := Function.update s.creds provider c }

def machine : Machine (St ι) (Ev ι) := ⟨fun s => ∃ db creds, s = start db creds, step⟩

end Steps

/-! ## Who has a task in hand -/

def InHand (s : St ι) (p : ι) (id k : Nat) : Prop := ∃ todo r, s.pc p = .loading id k todo r

structure Inv (s : St ι) : Prop where
  inHand : ∀ p id k, InHand s p id k → (id, k) ∉ s.dispatched ∧ k ≤ s.period id ∧ s.db.has id
  holds : ∀ p id k todo, s.pc p = .loading id k todo false →
    s.locks.Holds p id ∧ s.period id = k ∧ s.db.status id = some .pending
  unique : ∀ p q id k, InHand s p id k → InHand s q id k → p = q
  spent : ∀ id k, (id, k) ∈ s.dispatched →
    k ≤ s.period id ∧ (k = s.period id → s.db.status id ≠ some .pending) ∧ s.db.has id
  once : s.dispatched.Nodup

theorem inv_start (db : Db) (creds : Provider → Option Credentials) : Inv (start db creds : St ι) := by
  refine ⟨?_, ?_, ?_, ?_, List.nodup_nil⟩
  · rintro p id k ⟨todo, r, h⟩; cases h
  · intro p id k todo h; cases h
  · rintro p q id k ⟨todo, r, h⟩; cases h
  · intro id k h; cases h

/-- Somebody else's change of a row nobody has locked. -/
theorem write_inv {s : St ι} {id : Nat} {t : Task} (h : Inv s) (hl : s.locks id = none) (hh : s.db.has id) :
    Inv { s with
      db := s.db.modify id fun _ => t
      period :=
        if s.db.status id ≠ some .pending ∧ t.status = .pending then Function.update s.period id (s.period id + 1)
        else s.period } := by
  have hst : (s.db.modify id fun _ => t).status = Function.update s.db.status id (some t.status) :=
    status_modify (fun _ => rfl) hh
  have hle : ∀ j, s.period j ≤ (if s.db.status id ≠ some .pending ∧ t.status = .pending then
      Function.update s.period id (s.period id + 1) else s.period) j := by
    intro j
    split
    · by_cases e : j = id
      · subst e
        have h := Function.update_self j (s.period j + 1) s.period
        omega
      · exact Nat.le_of_eq (Function.update_of_ne e _ _).symm
    · exact Nat.le_refl _
  have hother : ∀ j, j ≠ id → (if s.db.status id ≠ some .pending ∧ t.status = .pending then
      Function.update s.period id (s.period id + 1) else s.period) j = s.period j := by
    intro j e
    split
    · rw [Function.update_of_ne e]
    · rfl
  refine ⟨fun p j k hp => ?_, fun p j k l hp => ?_, h.unique, fun j k hm => ?_, h.once⟩
  · obtain ⟨hn, hk, hhas⟩ := h.inHand p j k hp
    exact ⟨hn, Nat.le_trans hk (hle j), has_modify _ _ _ hhas⟩
  · obtain ⟨hhold, hper, hs⟩ := h.holds p j k l hp
    have e : j ≠ id := by
      intro hx
      subst hx
      simp [LockTable.Holds, hl] at hhold
    refine ⟨hhold, (hother j e).trans hper, ?_⟩
    simp only [hst, Function.update_of_ne e]
    exact hs
  · obtain ⟨hk, hne, hhas⟩ := h.spent j k hm
    refine ⟨Nat.le_trans hk (hle j), fun he => ?_, has_modify _ _ _ hhas⟩
    by_cases e : j = id
    · subst e
      simp only [hst, Function.update_self, ne_eq, Option.some.injEq]
      intro hp
      by_cases ho : s.db.status j = some .pending
      · simp only [ho, ne_eq, not_true_eq_false, false_and, if_false] at he
        exact hne he ho
      · simp only [ne_eq, ho, not_false_eq_true, hp, and_self, if_true, Function.update_self] at he
        omega
    · simp only [hst, Function.update_of_ne e]
      exact hne (he.trans (hother j e))

theorem insert_inv {s : St ι} {t : Task} (h : Inv s) : Inv { s with db := s.db.insert t } := by
  have old : ∀ {j : Nat}, s.db.has j → (s.db.insert t).status j = s.db.status j := by
    intro j hj
    apply status_insert_other _ _
    intro hx
    subst hx
    exact not_has_nextId _ hj
  refine ⟨fun p j k hp => ?_, fun p j k l hp => ?_, h.unique, fun j k hm => ?_, h.once⟩
  · obtain ⟨hn, hk, hhas⟩ := h.inHand p j k hp
    exact ⟨hn, hk, has_insert _ _ hhas⟩
  · obtain ⟨hhold, hper, hs⟩ := h.holds p j k l hp
    exact ⟨hhold, hper, (old (has_of_status hs)).trans hs⟩
  · obtain ⟨hk, hne, hhas⟩ := h.spent j k hm
    refine ⟨hk, fun he => ?_, has_insert _ _ hhas⟩
    rw [old hhas]
    exact hne he

variable [DecidableEq ι]

/-- Nobody dequeues a task that another replica, having committed a refreshed token on its
    own dequeue session, still has in hand from the same pending period. -/
def Undisturbed (s : St ι) : Ev ι → Prop
  | .dequeue q id => ∀ p todo, p ≠ q → s.pc p ≠ .loading id (s.period id) todo true
  | _ => True

theorem pc_update {s : St ι} {p q : ι} {pc : Pc} {id k : Nat} {todo : List Provider} {r : Bool}
    (h : Function.update s.pc p pc q = .loading id k todo r) :
    q = p ∧ pc = .loading id k todo r ∨ q ≠ p ∧ s.pc q = .loading id k todo r := by
  by_cases e : q = p
  · subst e; rw [Function.update_self] at h; exact .inl ⟨rfl, h⟩
  · rw [Function.update_of_ne e] at h; exact .inr ⟨e, h⟩

theorem dequeue_inv {s : St ι} {p : ι} {id : Nat} (h : Inv s) (hc : candidate s p id = true)
    (hu : Undisturbed s (.dequeue p id)) :
    Inv (setPc { s with locks := s.locks.lock p id } p (.loading id (s.period id) providers false)) := by
  simp only [candidate, Bool.and_eq_true, decide_eq_true_eq] at hc
  obtain ⟨hst, hg⟩ := hc
  -- whoever else had the task in hand would hold its lock, or be ruled out by `hu`
  have hnew : ∀ q, q ≠ p → ¬ InHand s q id (s.period id) := by
    intro q hq hx
    obtain ⟨todo, r, hpc⟩ := hx
    cases r with
    | true => exact hu q todo hq hpc
    | false => exact hq (LockTable.grants_iff.mp hg q (h.holds q id _ todo hpc).1)
  refine ⟨?_, ?_, ?_, h.spent, h.once⟩
  · intro q j k hx
    obtain ⟨todo, r, hpc⟩ := hx
    rcases pc_update hpc with ⟨rfl, heq⟩ | ⟨-, hpc⟩
    · cases heq
      exact ⟨fun hm => (h.spent _ _ hm).2.1 rfl hst, Nat.le_refl _, has_of_status hst⟩
    · exact h.inHand q j k ⟨todo, r, hpc⟩
  · intro q j k todo hpc
    rcases pc_update hpc with ⟨rfl, heq⟩ | ⟨-, hpc⟩
    · cases heq
      exact ⟨LockTable.lock_self .., rfl, hst⟩
    · obtain ⟨hh, hk, hs⟩ := h.holds q j k todo hpc
      exact ⟨LockTable.lock_other hg hh, hk, hs⟩
  · intro q q' j k hx hp
    obtain ⟨todo, r, hpc⟩ := hx
    obtain ⟨todo', r', hpc'⟩ := hp
    rcases pc_update hpc with ⟨rfl, heq⟩ | ⟨hq, hpc⟩
    · rcases pc_update hpc' with ⟨rfl, -⟩ | ⟨hq', hpc'⟩
      · rfl
      · cases heq
        exact absurd ⟨todo', r', hpc'⟩ (hnew q' hq')
    · rcases pc_update hpc' with ⟨rfl, heq⟩ | ⟨-, hpc'⟩
      · cases heq
        exact absurd ⟨todo, r, hpc⟩ (hnew q hq)
      · exact h.unique q q' j k ⟨todo, r, hpc⟩ ⟨todo', r', hpc'⟩

/-- A replica that goes on with the task it has in hand, keeping its lock or, if a load
    committed, giving it up. -/
theorem load_inv {s : St ι} {p : ι} {id k : Nat} {todo : List Provider} {r : Bool} (h : Inv s)
    (hpc : s.pc p = .loading id k todo r) (todo' : List Provider) (creds : Provider → Option Credentials) (committed : Bool) :
    Inv (setPc (if committed then endTransaction { s with creds := creds } p else { s with creds := creds }) p
      (.loading id k todo' (r || committed))) := by
  have hand : ∀ {q j k'}, InHand (setPc (if committed then endTransaction { s with creds := creds } p
      else { s with creds := creds }) p (.loading id k todo' (r || committed))) q j k' → InHand s q j k' := by
    intro q j k' hx
    obtain ⟨l, r', hq⟩ := hx
    have hq : Function.update s.pc p (.loading id k todo' (r || committed)) q = .loading j k' l r' := by
      cases committed <;> exact hq
    rcases pc_update hq with ⟨rfl, heq⟩ | ⟨-, hq⟩
    · cases heq; exact ⟨todo, r, hpc⟩
    · exact ⟨l, r', hq⟩
  cases committed with
  | false =>
    refine ⟨fun q j k' hq => h.inHand q j k' (hand hq), fun q j k' l hq => ?_,
      fun q q' j k' hq hq' => h.unique q q' j k' (hand hq) (hand hq'), h.spent, h.once⟩
    rcases pc_update hq with ⟨rfl, heq⟩ | ⟨-, hq⟩
    · cases r with
      | false => cases heq; exact h.holds q id k todo hpc
      | true => cases heq
    · exact h.holds q j k' l hq
  | true =>
    refine ⟨fun q j k' hq => h.inHand q j k' (hand hq), fun q j k' l hq => ?_,
      fun q q' j k' hq hq' => h.unique q q' j k' (hand hq) (hand hq'), h.spent, h.once⟩
    rcases pc_update hq with ⟨rfl, heq⟩ | ⟨hne, hq⟩
    · rw [Bool.or_true] at heq; cases heq
    · obtain ⟨hh, hrest⟩ := h.holds q j k' l hq
      exact ⟨LockTable.releaseAll_other hne hh, hrest⟩

theorem release_inv {s : St ι} {p : ι} (h : Inv s) : Inv (endTransaction (setPc s p .idle) p) := by
  have hand : ∀ {q j k}, InHand (endTransaction (setPc s p .idle) p) q j k → q ≠ p ∧ InHand s q j k := by
    intro q j k hx
    obtain ⟨l, r, hq⟩ := hx
    rcases pc_update hq with ⟨-, heq⟩ | ⟨hne, hq⟩
    · cases heq
    · exact ⟨hne, l, r, hq⟩
  refine ⟨fun q j k hq => h.inHand q j k (hand hq).2, fun q j k l hq => ?_,
    fun q q' j k hq hq' => h.unique q q' j k (hand hq).2 (hand hq').2, h.spent, h.once⟩
  rcases pc_update hq with ⟨-, heq⟩ | ⟨hne, hq⟩
  · cases heq
  · obtain ⟨hh, hrest⟩ := h.holds q j k l hq
    exact ⟨LockTable.releaseAll_other hne hh, hrest⟩

/-- The status commit of a task in hand, once its row lock is to be had. -/
theorem dispatch_inv {s : St ι} {p : ι} {id k : Nat} {todo : List Provider} {r : Bool} (h : Inv s)
    (hpc : s.pc p = .loading id k todo r) (hg : s.locks.grants p id = true) (now : Timestamp) (created : Bool) :
    Inv (endTransaction (setPc { s with
      db := dispatch now s.db id
      dispatched := if created then s.dispatched ++ [(id, k)] else s.dispatched } p .idle) p) := by
  obtain ⟨hfresh, hk, hhas⟩ := h.inHand p id k ⟨todo, r, hpc⟩
  have hstatus : (dispatch now s.db id).status = Function.update s.db.status id (some .running) :=
    status_modify (fun _ => rfl) hhas
  have hmem : ∀ {j k'}, (j, k') ∈ (if created then s.dispatched ++ [(id, k)] else s.dispatched) →
      (j, k') ∈ s.dispatched ∨ (j, k') = (id, k) := by
    intro j k' hm
    cases created with
    | false => exact .inl hm
    | true =>
      rcases List.mem_append.mp hm with hm | hm
      · exact .inl hm
      · exact .inr (List.mem_singleton.mp hm)
  refine ⟨?_, ?_, ?_, ?_, ?_⟩
  · intro q j k' hx
    obtain ⟨l, r', hq⟩ := hx
    rcases pc_update hq with ⟨-, heq⟩ | ⟨hne, hq⟩
    · cases heq
    · obtain ⟨hn, hle, hh⟩ := h.inHand q j k' ⟨l, r', hq⟩
      refine ⟨fun hm => ?_, hle, has_modify _ _ _ hh⟩
      rcases hmem hm with hm | hm
      · exact hn hm
      · cases hm
        exact hne (h.unique q p id k ⟨l, r', hq⟩ ⟨todo, r, hpc⟩)
  · intro q j k' l hq
    rcases pc_update hq with ⟨-, heq⟩ | ⟨hne, hq⟩
    · cases heq
    · obtain ⟨hh, hper, hst⟩ := h.holds q j k' l hq
      have hj : j ≠ id := by
        intro hx
        subst hx
        exact hne (LockTable.grants_iff.mp hg q hh)
      refine ⟨LockTable.releaseAll_other hne hh, hper, ?_⟩
      simp only [endTransaction, setPc, hstatus, Function.update_of_ne hj]
      exact hst
  · intro q q' j k' hx hp
    obtain ⟨l, r', hq⟩ := hx
    obtain ⟨l', r'', hq'⟩ := hp
    rcases pc_update hq with ⟨-, heq⟩ | ⟨-, hq⟩
    · cases heq
    · rcases pc_update hq' with ⟨-, heq⟩ | ⟨-, hq'⟩
      · cases heq
      · exact h.unique q q' j k' ⟨l, r', hq⟩ ⟨l', r'', hq'⟩
  · intro j k' hm
    have hrun : j = id → (dispatch now s.db id).status j ≠ some .pending := by
      rintro rfl; rw [hstatus]; simp
    rcases hmem hm with hm | hm
    · obtain ⟨hle, hne, hh⟩ := h.spent j k' hm
      refine ⟨hle, fun he => ?_, has_modify _ _ _ hh⟩
      by_cases e : j = id
      · exact hrun e
      · simp only [endTransaction, setPc, hstatus, Function.update_of_ne e]
        exact hne he
    · cases hm
      exact ⟨hk, fun _ => hrun rfl, has_modify _ _ _ hhas⟩
  · cases created with
    | false => exact h.once
    | true => exact List.nodup_append.mpr ⟨h.once, List.nodup_singleton _, fun a ha b hb => by
        obtain rfl := List.mem_singleton.mp hb
        intro hx
        subst hx
        exact hfresh ha⟩

theorem step_inv {s s' : St ι} {e : Ev ι} (h : Inv s) (hu : Undisturbed s e) (hs : step s e = some s') : Inv s' := by
  cases e with
  | dequeue p id =>
    simp only [step] at hs
    split at hs
    · rename_i hc
      cases hs
      have hf := hc.2
      simp only [first, Bool.and_eq_true] at hf
      exact dequeue_inv h hf.1 hu
    · cases hs
  | load p o =>
    simp only [step] at hs
    split at hs
    · rename_i id k provider todo r hpc
      split at hs
      · cases hs
        exact load_inv h hpc ..
      · cases hs
        have := load_inv h hpc todo s.creds false
        simpa using this
    · cases hs
  | commit p now created =>
    simp only [step] at hs
    split at hs
    · rename_i id k r hpc
      split at hs
      · rename_i hg; cases hs; exact dispatch_inv h hpc hg now created
      · cases hs
    · cases hs
  | fail p => cases hs; exact release_inv h
  | write id t =>
    simp only [step] at hs
    split at hs
    · rename_i hc; cases hs; exact write_inv h hc.1 hc.2
    · cases hs
  | insert t => cases hs; exact insert_inv h
  | store provider c => cases hs; exact ⟨h.inHand, h.holds, h.unique, h.spent, h.once⟩

theorem inv {s : St ι} (h : (machine (ι := ι)).ReachIf Undisturbed s) : Inv s :=
  h.inv (fun s (hi : ∃ db creds, s = start db creds) => by obtain ⟨db, creds, rfl⟩ := hi; exact inv_start db creds)
    fun s e s' hp hu (hst : step s e = some s') => step_inv hp hu hst

/-- No pending period of a task ends in two coroutines, in every run in which nobody
    dequeues a task that another replica has in hand from the same period and has
    committed a refreshed token over. -/
theorem one_dispatch {s : St ι} (h : (machine (ι := ι)).ReachIf Undisturbed s) : s.dispatched.Nodup :=
  (inv h).once

/-! ## Without a refresh -/

/-- No stored token is due for a refresh that succeeds. -/
def NoRefresh (s : St ι) : Ev ι → Prop
  | .load p (some o) => ∀ id k provider todo r c, s.pc p = .loading id k (provider :: todo) r →
      s.creds provider = some c → refreshes o false c = false
  | _ => True

theorem step_unrefreshed {s s' : St ι} {e : Ev ι} (h : ∀ p id k todo, s.pc p ≠ .loading id k todo true)
    (hn : NoRefresh s e) (hs : step s e = some s') : ∀ p id k todo, s'.pc p ≠ .loading id k todo true := by
  intro q id k todo hq
  cases e with
  | dequeue p j =>
    simp only [step] at hs
    split at hs
    · cases hs
      rcases pc_update hq with ⟨-, heq⟩ | ⟨-, hq⟩
      · cases heq
      · exact h q id k todo hq
    · cases hs
  | load p o =>
    simp only [step] at hs
    split at hs
    · rename_i j k' provider todo' r hpc
      have hr : r = false := by
        cases r with
        | false => rfl
        | true => exact absurd hpc (h p j k' (provider :: todo'))
      split at hs
      · rename_i c o hc
        have hcom : (refreshTokenIfNeeded o false c).committed = false := by
          rw [committed_iff]
          exact hn j k' provider todo' r c hpc hc
        cases hs
        have hq : Function.update s.pc p (.loading j k' todo' (r || (refreshTokenIfNeeded o false c).committed)) q =
            .loading id k todo true := by
          simpa only [setPc, refreshed, hcom, Bool.false_eq_true, if_false] using hq
        rcases pc_update hq with ⟨-, heq⟩ | ⟨-, hq⟩
        · rw [hr, hcom] at heq; cases heq
        · exact h q id k todo hq
      · cases hs
        rcases pc_update hq with ⟨-, heq⟩ | ⟨-, hq⟩
        · rw [hr] at heq; cases heq
        · exact h q id k todo hq
    · cases hs
  | commit p now created =>
    simp only [step] at hs
    split at hs
    · split at hs
      · cases hs
        rcases pc_update hq with ⟨-, heq⟩ | ⟨-, hq⟩
        · cases heq
        · exact h q id k todo hq
      · cases hs
    · cases hs
  | fail p =>
    cases hs
    rcases pc_update hq with ⟨-, heq⟩ | ⟨-, hq⟩
    · cases heq
    · exact h q id k todo hq
  | write j t =>
    simp only [step] at hs
    split at hs
    · cases hs; exact h q id k todo hq
    · cases hs
  | insert t => cases hs; exact h q id k todo hq
  | store provider c => cases hs; exact h q id k todo hq

/-- With no refresh due on any dequeue session the row lock is never given up early. -/
theorem one_dispatch_of_noRefresh {s : St ι} (h : (machine (ι := ι)).ReachIf NoRefresh s) : s.dispatched.Nodup := by
  suffices Inv s ∧ ∀ p id k todo, s.pc p ≠ .loading id k todo true from this.1.once
  refine h.inv (P := fun s => Inv s ∧ ∀ p id k todo, s.pc p ≠ .loading id k todo true)
    (fun s (hi : ∃ db creds, s = start db creds) => ?_) fun s e s' ⟨hv, hr⟩ hn (hst : step s e = some s') => ?_
  · obtain ⟨db, creds, rfl⟩ := hi
    exact ⟨inv_start db creds, fun p id k todo hpc => by cases hpc⟩
  · refine ⟨step_inv hv ?_ hst, step_unrefreshed hr hn hst⟩
    cases e with
    | dequeue q id => intro p todo _; exact hr p id _ todo
    | _ => trivial

/-! ## Two replicas -/

def oneTask : Db := dbOf { repeatingTask "7 days" with status := .pending }

/-- Google Drive's access token has expired. -/
def expired : Provider → Option Credentials
  | .googleDrive => some ⟨"old", "refresh", 0⟩
  | .onedrive => none

/-- The token endpoint answers, an hour after the token ran out. -/
def answering : Outside where
  now := 3600
  clientId := "id"
  clientSecret := "secret"
  mcpUrl := ""
  endpoint := .json ⟨"new", none, none⟩
  webSocket := none
  http := .failed
  stored := true
  commit := .ok
  httpCommit := .ok

theorem one_dispatch_no_credentials :
    ∃ s : St Bool, machine.ReachIf Undisturbed s ∧ s.dispatched = [(0, 0)] ∧ s.dispatched.Nodup := by
  have h0 : (machine (ι := Bool)).ReachIf Undisturbed (start oneTask fun _ => none) := .init ⟨_, _, rfl⟩
  have h1 := h0.step (.dequeue true 0) (by intro p todo _ hp; cases hp) rfl
  have h2 := h1.step (.load true none) (by trivial) rfl
  have h3 := h2.step (.load true none) (by trivial) rfl
  have h4 := h3.step (.commit true 0 true) (by trivial) rfl
  exact ⟨_, h4, rfl, one_dispatch h4⟩

theorem one_dispatch_without_a_refresh :
    ∃ s : St Bool, machine.ReachIf NoRefresh s ∧ s.dispatched = [(0, 0)] ∧ s.dispatched.Nodup := by
  have h0 : (machine (ι := Bool)).ReachIf NoRefresh (start oneTask expired) := .init ⟨_, _, rfl⟩
  have h1 := h0.step (.dequeue true 0) (by trivial) rfl
  have h2 := h1.step (.load true none) (by trivial) rfl
  have h3 := h2.step (.load true none) (by trivial) rfl
  have h4 := h3.step (.commit true 0 true) (by trivial) rfl
  exact ⟨_, h4, rfl, one_dispatch_of_noRefresh h4⟩

/-- Google Drive's token has expired. The first replica's refresh commits on its dequeue
    session, the second dequeues the row now unlocked, and both start the task. -/
theorem two_replicas_dispatch :
    ¬ ∀ s : St Bool, machine.Reach s → s.dispatched.Nodup := by
  intro h
  have hr : ∃ s, (machine (ι := Bool)).exec (start oneTask expired)
      [.dequeue true 0, .load true (some answering), .dequeue false 0, .load false (some answering), .load false none,
       .load true none, .commit false 0 true, .commit true 0 true] = some s ∧ s.dispatched = [(0, 0), (0, 0)] :=
    ⟨_, rfl, rfl⟩
  obtain ⟨s, hs, hd⟩ := hr
  have := h s (Machine.Reach.exec (.init ⟨_, _, rfl⟩) hs)
  rw [hd] at this
  exact absurd this (by decide)

end Errand.Server.Dispatch

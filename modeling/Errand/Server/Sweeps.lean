import Errand.Server.Lifecycle

/-
  Errand.Server.Sweeps — the background sweeps between their select and their write
  (`promote_due_tasks`, `archive_completed_tasks`, errand/scheduler.py;
  `recover_zombie_tasks`, errand/zombie_cleanup.py), with everything else that writes the
  tasks table going on (Errand.Server.Lifecycle) and users editing it.

  One step is one committed statement. Promotion selects its rows FOR UPDATE, so every other
  write of such a row waits; the other two sweeps select without a lock and write what they
  made of the row by its id later. A batch is its rows one by one.

  Proved:
  - `get_other`: a step changes no row but the one its statement writes.
  - `step_undisturbed`: a row a sweep has in hand stays one it would select, as long as
    nothing else writes it.
  - `sweeps_sound`: so every write of a sweep is of such a row, in every run in which
    nothing writes a row between an unlocked sweep's select and its write.
  - `promotion_sound`: promotion's are, in every run.
  - `a_completed_run_is_recovered`: a run with such a write.
-/

namespace Errand.Server.Sweeps

open Errand.Lib Errand.Server.Tasks Errand.Server.RunTask Errand.Server.Lifecycle

structure St where
  board : Lifecycle.St
  /-- Rows promotion has selected and holds the lock of. -/
  locked : List Nat
  /-- Rows archiving has loaded, with its cutoff. -/
  archiving : List (Nat × Timestamp)

inductive Event where
  /-- Of the board: runs, heartbeats, zombie recovery, dispatch, deletion, the clock. -/
  | base (e : Ev)
  /-- The UPDATE of a user's edit, whatever it sets. -/
  | edit (id : Nat) (f : Task → Task)
  | promoteSelect (id : Nat)
  | promoteWrite (id : Nat)
  | promoteRollback (id : Nat)
  | archiveSelect (id : Nat) (cutoff : Timestamp)
  | archiveWrite (p : Nat × Timestamp)
  | archiveDrop (p : Nat × Timestamp)

/-- The row an event of the board updates. -/
def baseTarget (s : Lifecycle.St) : Ev → Option Nat
  | .dispatch id => some id
  | .run r a => (s.runs r).bind fun x =>
      (commitOf s.now s.db x.task x.pc a).bind fun c => c.status.map fun _ => x.task.id
  | .heartbeat r => (s.runs r).map (·.task.id)
  | .promote id => some id
  | .zombieCommit z => some z.id
  | .archiveCommit id => some id
  | .delete id => some id
  | _ => none

def target (s : St) : Event → Option Nat
  | .base e => baseTarget s.board e
  | .edit id _ => some id
  | .promoteWrite id => some id
  | .archiveWrite p => some p.1
  | _ => none

/-- The statement does not have to wait for promotion's lock. -/
def Free (s : St) (id : Option Nat) : Prop := ∀ j ∈ id, j ∉ s.locked

instance (s : St) (id : Option Nat) : Decidable (Free s id) := by
  unfold Free
  exact Option.decidableForallMem _

def old (cutoff : Timestamp) (t : Task) : Bool := t.status = .completed && t.updatedAt < cutoff

/-- Promotion and archiving have steps of their own here. -/
def swept : Ev → Bool
  | .promote _ => true
  | .archiveSelect _ _ => true
  | .archiveCommit _ => true
  | _ => false

def St.withDb (s : St) (db : Db) : St := { s with board := { s.board with db := db } }

section Machine

variable (extractJson : String → Option String) (validate : String → Option TaskRunnerOutput)

def machine : Machine St Event where
  init s := ∃ now db, s = ⟨start now db, [], []⟩
  step s e :=
    match e with
    | .base e =>
      if swept e then none
      else if Free s (baseTarget s.board e) then
        (Lifecycle.step extractJson validate s.board e).map fun board => { s with board := board }
      else none
    | .edit id f => if Free s (some id) then some (s.withDb (s.board.db.modify id f)) else none
    | .promoteSelect id =>
      if Free s (some id) ∧ (s.board.db.get id).any (due s.board.now) then some { s with locked := id :: s.locked }
      else none
    | .promoteWrite id =>
      if id ∈ s.locked then
        some { s.withDb (promote s.board.now s.board.db id) with locked := s.locked.erase id }
      else none
    | .promoteRollback id => some { s with locked := s.locked.erase id }
    | .archiveSelect id cutoff =>
      if (s.board.db.get id).any (old cutoff) then some { s with archiving := (id, cutoff) :: s.archiving } else none
    | .archiveWrite p =>
      if p ∈ s.archiving ∧ Free s (some p.1) then
        some { s.withDb (archive s.board.now s.board.db p.1) with archiving := s.archiving.erase p }
      else none
    | .archiveDrop p => some { s with archiving := s.archiving.erase p }

end Machine

/-- A write of a sweep is of a row the sweep would select at that moment. -/
def Sound (s : St) : Event → Prop
  | .base (.zombieCommit z) => ∀ t, s.board.db.get z.id = some t → stale z.now t = true
  | .promoteWrite id => ∀ t, s.board.db.get id = some t → due s.board.now t = true
  | .archiveWrite p => ∀ t, s.board.db.get p.1 = some t → old p.2 t = true
  | _ => True

/-- The rows an unlocked sweep has loaded and not written yet, apart from the one the event
    writes. -/
def pendingZombies (s : St) : Event → List Zombie
  | .base (.zombieCommit z) => s.board.zombies.erase z
  | _ => s.board.zombies

def pendingArchives (s : St) : Event → List (Nat × Timestamp)
  | .archiveWrite p => s.archiving.erase p
  | _ => s.archiving

/-- The statement writes no row that zombie recovery or archiving has in hand. -/
def Undisturbed (s : St) (e : Event) : Prop :=
  ∀ id, target s e = some id → (∀ z ∈ pendingZombies s e, z.id ≠ id) ∧ ∀ p ∈ pendingArchives s e, p.1 ≠ id

/-! ## What a step leaves alone -/

theorem modify_get_other {db : Db} {id j : Nat} {f : Task → Task} {t : Task} (hj : db.get j = some t)
    (hne : some id ≠ some j) : (db.modify id f).get j = some t := by
  rw [Db.modify_other db f fun h => hne (congrArg some h.symm)]
  exact hj

theorem insert_get_other {db : Db} {row t : Task} {j : Nat} (hj : db.get j = some t) :
    (db.insert row).get j = some t := by
  have hne : j ≠ db.nextId := by
    intro h
    rw [h, db.fresh _ (Nat.le_refl _)] at hj
    cases hj
  rw [Db.insert_other db row hne]
  exact hj

theorem run_get_other {s : Lifecycle.St} {x : Active} {a : Answer} {o : Outcome} (hs : Stepped s x a o) {j : Nat}
    {t : Task} (hj : s.db.get j = some t)
    (hne : ((commitOf s.now s.db x.task x.pc a).bind fun c => c.status.map fun _ => x.task.id) ≠ some j) :
    o.db.get j = some t := by
  obtain ⟨db', pc', c⟩ := o
  obtain ⟨heffect, hcommit, -, -⟩ := hs
  cases heffect with
  | nothing => exact hj
  | committed ht =>
    rename_i c
    rw [← hcommit] at hne
    cases hc : c.status with
    | none =>
      cases c with
      | successor n =>
        obtain ⟨⟨row, rfl, -⟩, -⟩ := transaction_successor ht
        exact insert_get_other hj
      | _ => cases hc
    | some st =>
      obtain ⟨f, rfl, -⟩ := transaction_modify ht hc
      refine modify_get_other hj ?_
      simpa [hc] using hne

theorem base_get_other {s s' : Lifecycle.St} {e : Ev} (h : Change s e s') {j : Nat} {t : Task}
    (hj : s.db.get j = some t) (hne : baseTarget s e ≠ some j) : s'.db.get j = some t := by
  cases h with
  | create => exact insert_get_other hj
  | run hx hs =>
    simp only [baseTarget, hx, Option.bind_some] at hne
    exact run_get_other hs hj hne
  | heartbeat hx =>
    simp only [baseTarget, hx, Option.map_some] at hne
    exact modify_get_other hj hne
  | dispatch => exact modify_get_other hj hne
  | promote => exact modify_get_other hj hne
  | zombieCommit => exact modify_get_other hj hne
  | archiveCommit => exact modify_get_other hj hne
  | delete => exact modify_get_other hj hne
  | _ => exact hj

variable {extractJson : String → Option String} {validate : String → Option TaskRunnerOutput}

/-- What a step does, and what it has to wait for. -/
inductive Does (extractJson : String → Option String) (validate : String → Option TaskRunnerOutput) (s : St) :
    Event → St → Prop where
  | base {e : Ev} {board : Lifecycle.St} : Free s (baseTarget s.board e) →
      Lifecycle.step extractJson validate s.board e = some board → Does _ _ s (.base e) { s with board := board }
  | edit {id : Nat} {f : Task → Task} : Free s (some id) → Does _ _ s (.edit id f) (s.withDb (s.board.db.modify id f))
  | promoteSelect {id : Nat} : Free s (some id) → (s.board.db.get id).any (due s.board.now) = true →
      Does _ _ s (.promoteSelect id) { s with locked := id :: s.locked }
  | promoteWrite {id : Nat} : id ∈ s.locked →
      Does _ _ s (.promoteWrite id)
        { s.withDb (promote s.board.now s.board.db id) with locked := s.locked.erase id }
  | promoteRollback {id : Nat} : Does _ _ s (.promoteRollback id) { s with locked := s.locked.erase id }
  | archiveSelect {id : Nat} {cutoff : Timestamp} : (s.board.db.get id).any (old cutoff) = true →
      Does _ _ s (.archiveSelect id cutoff) { s with archiving := (id, cutoff) :: s.archiving }
  | archiveWrite {p : Nat × Timestamp} : p ∈ s.archiving → Free s (some p.1) →
      Does _ _ s (.archiveWrite p)
        { s.withDb (archive s.board.now s.board.db p.1) with archiving := s.archiving.erase p }
  | archiveDrop {p : Nat × Timestamp} : Does _ _ s (.archiveDrop p) { s with archiving := s.archiving.erase p }

theorem step_does {s s' : St} {e : Event} (h : (machine extractJson validate).step s e = some s') :
    Does extractJson validate s e s' := by
  cases e with
  | base e =>
    simp only [machine] at h
    split at h
    · cases h
    · split at h
      · rename_i hfree
        obtain ⟨board, hboard, rfl⟩ := Option.map_eq_some_iff.mp h
        exact .base hfree hboard
      · cases h
  | edit id f =>
    simp only [machine, Option.ite_none_right_eq_some, Option.some.injEq] at h
    obtain ⟨hfree, rfl⟩ := h
    exact .edit hfree
  | promoteSelect id =>
    simp only [machine, Option.ite_none_right_eq_some, Option.some.injEq] at h
    obtain ⟨⟨hfree, hdue⟩, rfl⟩ := h
    exact .promoteSelect hfree hdue
  | promoteWrite id =>
    simp only [machine, Option.ite_none_right_eq_some, Option.some.injEq] at h
    obtain ⟨hlocked, rfl⟩ := h
    exact .promoteWrite hlocked
  | promoteRollback id =>
    cases h
    exact .promoteRollback
  | archiveSelect id cutoff =>
    simp only [machine, Option.ite_none_right_eq_some, Option.some.injEq] at h
    obtain ⟨hold, rfl⟩ := h
    exact .archiveSelect hold
  | archiveWrite p =>
    simp only [machine, Option.ite_none_right_eq_some, Option.some.injEq] at h
    obtain ⟨⟨hp, hfree⟩, rfl⟩ := h
    exact .archiveWrite hp hfree
  | archiveDrop p =>
    cases h
    exact .archiveDrop

theorem get_other {s s' : St} {e : Event} (h : (machine extractJson validate).step s e = some s') {j : Nat} {t : Task}
    (hj : s.board.db.get j = some t) (hne : target s e ≠ some j) : s'.board.db.get j = some t := by
  cases step_does h with
  | base _ hboard => exact base_get_other (step_change hboard) hj hne
  | edit _ => exact modify_get_other hj hne
  | promoteWrite _ => exact modify_get_other hj hne
  | archiveWrite _ _ => exact modify_get_other hj hne
  | _ => exact hj

/-! ## The rows in hand -/

/-- A row with the property. -/
def Row (s : St) (id : Nat) (p : Task → Bool) : Prop := ∃ t, s.board.db.get id = some t ∧ p t = true

theorem row_of_any {s : St} {id : Nat} {p : Task → Bool} (h : (s.board.db.get id).any p = true) : Row s id p := by
  cases ht : s.board.db.get id with
  | none =>
    rw [ht] at h
    cases h
  | some t =>
    rw [ht] at h
    exact ⟨t, ht, h⟩

theorem Row.kept {s s' : St} {e : Event} {id : Nat} {p : Task → Bool} (h : Row s id p)
    (hst : (machine extractJson validate).step s e = some s') (hne : target s e ≠ some id) : Row s' id p := by
  obtain ⟨t, ht, hp⟩ := h
  exact ⟨t, get_other hst ht hne, hp⟩

structure Locks (s : St) : Prop where
  nodup : s.locked.Nodup
  due : ∀ id ∈ s.locked, Row s id (due s.board.now)

structure Loaded (s : St) : Prop where
  zombies : ∀ z ∈ s.board.zombies, Row s z.id (stale z.now)
  archiving : ∀ p ∈ s.archiving, Row s p.1 (old p.2)

theorem due_mono {now now' : Timestamp} {t : Task} (h : due now t = true) (hle : now ≤ now') : due now' t = true := by
  simp only [due, Bool.and_eq_true, decide_eq_true_eq, Option.any_eq_true] at h ⊢
  obtain ⟨hs, x, hx, hxn⟩ := h
  refine ⟨hs, x, hx, ?_⟩
  exact Int.le_trans hxn hle

theorem base_now {s s' : Lifecycle.St} {e : Ev} (h : Lifecycle.step extractJson validate s e = some s') :
    s.now ≤ s'.now := by
  by_cases htick : ∃ now, e = .tick now
  · obtain ⟨now, rfl⟩ := htick
    simp only [Lifecycle.step, Option.ite_none_right_eq_some, Option.some.injEq] at h
    obtain ⟨hle, rfl⟩ := h
    exact hle
  · have hchange := step_change h
    cases hchange with
    | tick => exact absurd ⟨_, rfl⟩ htick
    | _ => exact Int.le_refl _

/-- Rows promotion goes on holding stay due. -/
theorem Locks.kept {s s' : St} {e : Event} (h : Locks s) (hst : (machine extractJson validate).step s e = some s')
    (hnow : s.board.now ≤ s'.board.now) (hsub : s'.locked.Sublist s.locked)
    (hfree : ∀ j ∈ s'.locked, target s e ≠ some j) : Locks s' := by
  refine ⟨h.nodup.sublist hsub, ?_⟩
  intro id hid
  obtain ⟨t, ht, hdue⟩ := (h.due id (hsub.subset hid)).kept hst (hfree id hid)
  exact ⟨t, ht, due_mono hdue hnow⟩

theorem ne_of_free {s : St} {id : Option Nat} (h : Free s id) (j : Nat) (hj : j ∈ s.locked) : id ≠ some j := by
  intro hid
  exact h j (by rw [hid]; rfl) hj

theorem step_locks {s s' : St} {e : Event} (hl : Locks s) (h : (machine extractJson validate).step s e = some s') :
    Locks s' := by
  have hkept := fun hnow hsub hfree => hl.kept h hnow hsub hfree
  cases step_does h with
  | base hfree hboard => exact hkept (base_now hboard) (List.Sublist.refl _) (ne_of_free hfree)
  | edit hfree => exact hkept (Int.le_refl _) (List.Sublist.refl _) (ne_of_free hfree)
  | promoteSelect hfree hdue =>
    refine ⟨List.nodup_cons.mpr ⟨hfree _ rfl, hl.nodup⟩, ?_⟩
    intro j hj
    rcases List.mem_cons.mp hj with rfl | hj
    · exact row_of_any hdue
    · exact hl.due j hj
  | promoteWrite _ =>
    refine hkept (Int.le_refl _) List.erase_sublist ?_
    intro j hj heq
    obtain rfl := Option.some.inj heq
    exact hl.nodup.not_mem_erase hj
  | promoteRollback => exact hkept (Int.le_refl _) List.erase_sublist nofun
  | archiveWrite _ hfree => exact hkept (Int.le_refl _) (List.Sublist.refl _) (ne_of_free hfree)
  | archiveSelect _ => exact ⟨hl.nodup, hl.due⟩
  | archiveDrop => exact ⟨hl.nodup, hl.due⟩

/-- What zombie recovery has loaded after a step: what it had, or a row it has just
    selected. -/
theorem step_zombies {s s' : St} {e : Event} (h : (machine extractJson validate).step s e = some s') {z : Zombie}
    (hz : z ∈ s'.board.zombies) : z ∈ pendingZombies s e ∨ target s e = none ∧ Row s z.id (stale z.now) := by
  cases step_does h with
  | @base e board _ hboard =>
    cases e with
    | zombieSelect id =>
      obtain ⟨t, ht, hboard⟩ := Option.bind_eq_some_iff.mp hboard
      simp only [Option.ite_none_right_eq_some, Option.some.injEq] at hboard
      obtain ⟨hstale, rfl⟩ := hboard
      rcases List.mem_cons.mp hz with rfl | hz
      · exact .inr ⟨rfl, t, ht, hstale⟩
      · exact .inl hz
    | zombieDrop z' =>
      obtain rfl := Option.some.inj hboard
      exact .inl (List.mem_of_mem_erase hz)
    | _ =>
      have hchange := step_change hboard
      cases hchange
      exact .inl hz
  | _ => exact .inl hz

theorem step_archives {s s' : St} {e : Event} (h : (machine extractJson validate).step s e = some s')
    {p : Nat × Timestamp} (hp : p ∈ s'.archiving) :
    p ∈ pendingArchives s e ∨ target s e = none ∧ Row s p.1 (old p.2) := by
  cases step_does h with
  | archiveDrop => exact .inl (List.mem_of_mem_erase hp)
  | archiveSelect hold =>
    rcases List.mem_cons.mp hp with rfl | hp
    · exact .inr ⟨rfl, row_of_any hold⟩
    · exact .inl hp
  | _ => exact .inl hp

theorem pendingZombies_subset {s : St} {e : Event} {z : Zombie} (h : z ∈ pendingZombies s e) :
    z ∈ s.board.zombies := by
  unfold pendingZombies at h
  split at h
  · exact List.mem_of_mem_erase h
  · exact h

theorem pendingArchives_subset {s : St} {e : Event} {p : Nat × Timestamp} (h : p ∈ pendingArchives s e) :
    p ∈ s.archiving := by
  unfold pendingArchives at h
  split at h
  · exact List.mem_of_mem_erase h
  · exact h

theorem step_undisturbed {s s' : St} {e : Event} (hl : Loaded s) (hu : Undisturbed s e)
    (h : (machine extractJson validate).step s e = some s') : Loaded s' := by
  constructor
  · intro z hz
    rcases step_zombies h hz with hz | ⟨hnone, hrow⟩
    · refine (hl.zombies z (pendingZombies_subset hz)).kept h ?_
      intro heq
      exact (hu z.id heq).1 z hz rfl
    · exact hrow.kept h (by rw [hnone]; nofun)
  · intro p hp
    rcases step_archives h hp with hp | ⟨hnone, hrow⟩
    · refine (hl.archiving p (pendingArchives_subset hp)).kept h ?_
      intro heq
      exact (hu p.1 heq).2 p hp rfl
    · exact hrow.kept h (by rw [hnone]; nofun)

/-! ## Runs -/

theorem start_locks (now : Timestamp) (db : Db) : Locks ⟨start now db, [], []⟩ := ⟨List.nodup_nil, nofun⟩

theorem start_loaded (now : Timestamp) (db : Db) : Loaded ⟨start now db, [], []⟩ := by
  constructor
  · intro z hz
    cases hz
  · intro p hp
    cases hp

theorem Row.of_get {s : St} {id : Nat} {p : Task → Bool} (h : Row s id p) {t : Task}
    (ht : s.board.db.get id = some t) : p t = true := by
  obtain ⟨u, hu, hp⟩ := h
  obtain rfl := Option.some.inj (ht.symm.trans hu)
  exact hp

theorem promotion_sound {s s' : St} {id : Nat} (h : (machine extractJson validate).Reach s)
    (hst : (machine extractJson validate).step s (.promoteWrite id) = some s') : Sound s (.promoteWrite id) := by
  have hl : Locks s := by
    refine h.inv (fun s hs => ?_) fun _ _ _ hl hst => step_locks hl hst
    obtain ⟨now, db, rfl⟩ := hs
    exact start_locks now db
  cases step_does hst with
  | promoteWrite hlocked =>
    intro t ht
    exact (hl.due id hlocked).of_get ht

theorem sweeps_sound {s s' : St} {e : Event} (h : (machine extractJson validate).ReachIf Undisturbed s)
    (hst : (machine extractJson validate).step s e = some s') : Sound s e := by
  have hinv : Locks s ∧ Loaded s := by
    refine h.inv (P := fun s => Locks s ∧ Loaded s) (fun s hs => ?_)
      fun _ _ _ hi hu hst => ⟨step_locks hi.1 hst, step_undisturbed hi.2 hu hst⟩
    obtain ⟨now, db, rfl⟩ := hs
    exact ⟨start_locks now db, start_loaded now db⟩
  obtain ⟨hlocks, hloaded⟩ := hinv
  cases step_does hst with
  | promoteWrite hlocked =>
    intro t ht
    exact (hlocks.due _ hlocked).of_get ht
  | archiveWrite hp _ =>
    intro t ht
    exact (hloaded.archiving _ hp).of_get ht
  | @base e board _ hboard =>
    cases e with
    | zombieCommit z =>
      simp only [Lifecycle.step, Option.ite_none_right_eq_some] at hboard
      intro t ht
      exact (hloaded.zombies z hboard.1).of_get ht
    | _ => trivial
  | _ => trivial

theorem undisturbed_of_idle {s : St} {e : Event} (hz : s.board.zombies = []) (ha : s.archiving = []) :
    Undisturbed s e := by
  intro id _
  constructor
  · intro z h
    have hmem := pendingZombies_subset h
    rw [hz] at hmem
    cases hmem
  · intro p h
    have hmem := pendingArchives_subset h
    rw [ha] at hmem
    cases hmem

/-- The row of a weekly task that went silent, as zombie recovery finds it. -/
def silent : Zombie := ⟨0, { repeatingTask "7 days" with heartbeatAt := some 0, updatedBy := some "system" }, silence⟩

theorem a_silent_run_is_recovered :
    ∃ s s' : St, (machine some completes).step s (.base (.zombieCommit silent)) = some s' ∧
      s'.board.db.status 0 = some .scheduled ∧ Sound s (.base (.zombieCommit silent)) := by
  have h0 : (machine some completes).ReachIf Undisturbed ⟨start 0 weekly, [], []⟩ := .init ⟨_, _, rfl⟩
  have h1 := h0.step (Event.base (.dispatch 0)) (undisturbed_of_idle rfl rfl) rfl
  have h2 := h1.step (Event.base (.crash 0)) (undisturbed_of_idle rfl rfl) rfl
  have h3 := h2.step (Event.base (.tick silence)) (undisturbed_of_idle rfl rfl) rfl
  have h4 := h3.step (Event.base (.zombieSelect 0)) (undisturbed_of_idle rfl rfl) rfl
  exact ⟨_, _, rfl, rfl, sweeps_sound h4 rfl⟩

/-- The task that was put back is promoted when its time has come. -/
theorem a_due_task_is_promoted :
    ∃ s s' : St, (machine some completes).step s (.promoteWrite 0) = some s' ∧ s'.board.db.status 0 = some .pending ∧
      Sound s (.promoteWrite 0) := by
  have hstart : (machine some completes).Reach ⟨start 0 weekly, [], []⟩ := .init ⟨0, weekly, rfl⟩
  have hreach := hstart.exec (rfl : (machine some completes).exec ⟨start 0 weekly, [], []⟩
    [.base (.dispatch 0), .base (.crash 0), .base (.tick silence), .base (.zombieSelect 0), .base (.zombieCommit silent),
      .base (.tick 86400000000), .promoteSelect 0] = some _)
  exact ⟨_, _, rfl, rfl, promotion_sound hreach rfl⟩

/-- A run that was silent for a while completes while zombie recovery has its row loaded:
    the recovery puts the completed task back on the schedule. -/
theorem a_completed_run_is_recovered :
    ¬ ∀ (s s' : St) (e : Event), (machine some completes).Reach s → (machine some completes).step s e = some s' →
      Sound s e := by
  intro h
  have hstart : (machine some completes).Reach ⟨start 0 weekly, [], []⟩ := .init ⟨0, weekly, rfl⟩
  have hreach := hstart.exec (rfl : (machine some completes).exec
    ⟨start 0 weekly, [], []⟩ [.base (.dispatch 0), .base (.run 0 .entered), .base (.run 0 (.result "{}" "")),
      .base (.tick silence), .base (.zombieSelect 0), .base (.run 0 .ok)] = some _)
  have hsound := h _ _ (.base (.zombieCommit silent)) hreach rfl _ rfl
  exact absurd hsound (by decide)

end Errand.Server.Sweeps

import Errand.Lib.Dict
import Errand.Lib.Machine

/-
  Errand.Server.DeviceGrants — device authorizations and their pollers
  (`cloud_auth_device_start`, `_run_device_grant`, `cloud_auth_disconnect` of `main.py`).

  An initiation, under a lock, cancels the poller before it, counts up the generation and
  asks for a code, which may fail; with the code it starts a poller. A poller whose poll
  brings tokens compares its generation, looks for the row, commits, and reports. A
  cancelled task goes no further than the await it is at; a commit that is there already may
  land all the same. A disconnect that has found a row deletes it some awaits later, and
  takes no part in the rest.

  Proved:
  - `grant_settled`: in every run in which no initiation begins while a commit is under way, no
    tokens come for the newest grant if a disconnect has deleted the row since its
    initiation, and none deletes it while a poller stores: only the newest poller stores,
    the status reported is the newest grant's, and the row there was initiated after the
    last disconnect.
  - `a_grant_outlives_the_disconnect`: a grant that is approved after a disconnect connects.
  - `a_commit_outlives_the_check`: a commit under way lands in a newer initiation.
-/

namespace Errand.Server.DeviceGrants

open Errand.Lib

/-- `DEVICE_TOKENS`, `DEVICE_PENDING`, … -/
inductive Outcome where
  | tokens
  | pending
  | slowDown
  | denied
  | expired
  | error
  deriving DecidableEq, Repr

structure DeviceTokenResult where
  outcome : Outcome
  detail : Option String
  deriving DecidableEq, Repr

inductive Status where
  | pending
  | connected
  | denied
  | expired
  | error
  deriving DecidableEq, Repr

/-- `_cloud_device_grant`. -/
structure Grant where
  status : Status
  detail : Option String
  /-- The initiation it is of. -/
  generation : Nat
  deriving DecidableEq, Repr

inductive Phase where
  | polling
  | selecting
  /-- The row has been looked for; whether there was one. -/
  | committing (found : Bool)
  | starting
  deriving DecidableEq, Repr

structure Poller where
  phase : Phase
  cancelled : Bool
  deriving DecidableEq, Repr

structure St where
  grant : Option Grant
  task : Option Nat
  generation : Nat
  locked : Bool
  /-- The pollers that have not ended, by their generations. -/
  pollers : List (Nat × Poller)
  /-- The credential's row: the generation whose poller has stored it, 0 from before. -/
  row : Option Nat
  /-- The disconnects that have found a row. -/
  disconnects : Nat
  /-- The generation at the last deletion. -/
  deleted : Option Nat
  /-- A poller has stored after a newer initiation began. -/
  superseded : Bool
  deriving DecidableEq, Repr

/-- The process starts, connected or not. -/
def start (connected : Bool) : St := ⟨none, none, 0, false, [], if connected then some 0 else none, 0, none, false⟩

inductive Event where
  | initiate
  | codeFails
  | codeArrives
  | poll (g : Nat) (result : DeviceTokenResult)
  | pollRaises (g : Nat) (detail : String)
  | select (g : Nat)
  /-- The commit, and the exception's text if it raises. -/
  | land (g : Nat) (detail : String)
  | storeRaises (g : Nat) (detail : String)
  | started (g : Nat)
  /-- A cancelled poller ends. -/
  | die (g : Nat)
  | disconnect
  | delete
  deriving DecidableEq, Repr

/-- `_DEVICE_OUTCOME_STATUS`. -/
def Outcome.status : Outcome → Status
  | .denied => .denied
  | .expired => .expired
  | _ => .error

def setDeviceGrantStatus (generation : Nat) (status : Status) (detail : Option String) (s : St) : St :=
  if generation ≠ s.generation then s
  else { s with grant := some ⟨status, detail.filter (· ≠ ""), generation⟩ }

def finish (g : Nat) (s : St) : St := { s with pollers := Dict.pop s.pollers g }

def setPhase (g : Nat) (phase : Phase) (s : St) : St := { s with pollers := Dict.set s.pollers g ⟨phase, false⟩ }

/-- `_cloud_device_task.cancel()`, if it is not done. -/
def cancelTask (s : St) : List (Nat × Poller) :=
  match s.task.bind fun g => (Dict.get? s.pollers g).map fun p => (g, p) with
  | some (g, p) => Dict.set s.pollers g { p with cancelled := true }
  | none => s.pollers

def initiate (s : St) : St :=
  { s with
    pollers := cancelTask s
    task := none
    grant := none
    generation := s.generation + 1
    locked := true }

/-- What follows a poll that has ended the loop of `poll_until_complete`. -/
def polled (g : Nat) (result : DeviceTokenResult) (s : St) : St :=
  if g ≠ s.generation then finish g s
  else if result.outcome ≠ .tokens then
    finish g (setDeviceGrantStatus g result.outcome.status result.detail s)
  else setPhase g .selecting s

/-- The commit: a row found is updated, which raises if it has gone, and one not found
    inserted, which raises if it is there. -/
def land (g : Nat) (found cancelled : Bool) (detail : String) (s : St) : St :=
  if s.row.isSome = found then
    let s := { s with row := some g, superseded := s.superseded || decide (g ≠ s.generation) }
    if cancelled then finish g s else setPhase g .starting s
  else finish g (if cancelled then s else setDeviceGrantStatus g .error (some detail) s)

def step (s : St) : Event → Option St
  | .initiate => if s.locked then none else some (initiate s)
  | .codeFails => if s.locked then some { s with locked := false } else none
  | .codeArrives =>
    if s.locked then
      some { s with
        grant := some ⟨.pending, none, s.generation⟩
        task := some s.generation
        pollers := Dict.set s.pollers s.generation ⟨.polling, false⟩
        locked := false }
    else none
  | .poll g result =>
    if Dict.get? s.pollers g = some ⟨.polling, false⟩ then
      match result.outcome with
      | .pending => some s
      | .slowDown => some s
      | _ => some (polled g result s)
    else none
  | .pollRaises g detail =>
    if Dict.get? s.pollers g = some ⟨.polling, false⟩ then
      some (finish g (setDeviceGrantStatus g .error (some detail) s))
    else none
  | .select g =>
    if Dict.get? s.pollers g = some ⟨.selecting, false⟩ then some (setPhase g (.committing s.row.isSome) s) else none
  | .land g detail =>
    match Dict.get? s.pollers g with
    | some ⟨.committing found, cancelled⟩ => some (land g found cancelled detail s)
    | _ => none
  | .storeRaises g detail =>
    match Dict.get? s.pollers g with
    | some ⟨.selecting, false⟩ => some (finish g (setDeviceGrantStatus g .error (some detail) s))
    | some ⟨.committing _, false⟩ => some (finish g (setDeviceGrantStatus g .error (some detail) s))
    | _ => none
  | .started g =>
    match Dict.get? s.pollers g with
    | some ⟨.starting, _⟩ => some (finish g (setDeviceGrantStatus g .connected none s))
    | _ => none
  | .die g => if (Dict.get? s.pollers g).any Poller.cancelled then some (finish g s) else none
  | .disconnect => if s.row.isSome then some { s with disconnects := s.disconnects + 1 } else none
  | .delete =>
    if 0 < s.disconnects then
      some { s with row := none, disconnects := s.disconnects - 1, deleted := some s.generation }
    else none

def machine : Machine St Event := ⟨fun s => ∃ connected, s = start connected, step⟩

structure Settled (s : St) : Prop where
  newest : s.superseded = false
  status : ∀ grant, s.grant = some grant → grant.generation = s.generation
  gone : ∀ n, s.deleted = some n → ∀ g, s.row = some g → n < g

/-- A poller between its check and the end of its commit. -/
def Phase.Storing (phase : Phase) : Prop := phase = .selecting ∨ ∃ found, phase = .committing found

/-- No initiation cuts into a commit, no disconnect into a store, and none is forgotten
    when tokens come. -/
def Quiet (s : St) : Event → Prop
  | .initiate => ∀ g p, Dict.get? s.pollers g = some p → ∀ found, p.phase ≠ .committing found
  | .poll g result => result.outcome = .tokens → g = s.generation → ∀ n, s.deleted = some n → n < g
  | .delete => ∀ g p, Dict.get? s.pollers g = some p → p.cancelled = false → ¬ p.phase.Storing
  | _ => True

/-! ## The invariant -/

structure Inv (s : St) : Prop where
  settled : Settled s
  owner : ∀ g p, Dict.get? s.pollers g = some p → p.cancelled = false → s.task = some g
  current : ∀ g, s.task = some g → g = s.generation
  locked : s.locked = true → s.task = none
  committing : ∀ g p, Dict.get? s.pollers g = some p → ∀ found, p.phase = .committing found → p.cancelled = false
  storing : ∀ g p, Dict.get? s.pollers g = some p → p.cancelled = false → p.phase.Storing →
    ∀ n, s.deleted = some n → n < g

theorem start_inv (connected : Bool) : Inv (start connected) := by
  refine ⟨⟨rfl, nofun, nofun⟩, nofun, nofun, nofun, nofun, nofun⟩

/-- A poller that has not been cancelled is of the newest initiation. -/
theorem Inv.newest {s : St} {g : Nat} {p : Poller} (h : Inv s) (hget : Dict.get? s.pollers g = some p)
    (hp : p.cancelled = false) : g = s.generation := h.current g (h.owner g p hget hp)

theorem get_finish {s : St} {g k : Nat} {p : Poller} (h : Dict.get? (finish g s).pollers k = some p) :
    Dict.get? s.pollers k = some p := (Dict.get?_pop_some h).2

theorem finish_inv {s : St} (g : Nat) (h : Inv s) : Inv (finish g s) :=
  ⟨⟨h.settled.newest, h.settled.status, h.settled.gone⟩, fun k p hk => h.owner k p (get_finish hk), h.current, h.locked,
    fun k p hk => h.committing k p (get_finish hk), fun k p hk => h.storing k p (get_finish hk)⟩

theorem status_inv {s : St} (g : Nat) (status : Status) (detail : Option String) (h : Inv s) :
    Inv (setDeviceGrantStatus g status detail s) := by
  unfold setDeviceGrantStatus
  split
  · exact h
  · rename_i hg
    refine ⟨⟨h.settled.newest, ?_, h.settled.gone⟩, h.owner, h.current, h.locked, h.committing, h.storing⟩
    intro grant hgrant
    cases hgrant
    exact Decidable.of_not_not hg

/-- The task's poller moves on. -/
theorem setPhase_inv {s : St} {g : Nat} {phase : Phase} (h : Inv s) (htask : s.task = some g)
    (hstoring : phase.Storing → ∀ n, s.deleted = some n → n < g) : Inv (setPhase g phase s) := by
  refine ⟨⟨h.settled.newest, h.settled.status, h.settled.gone⟩, ?_, h.current, h.locked, ?_, ?_⟩
  · intro k p hk hp
    rcases Dict.get?_set_cases hk with ⟨rfl, -⟩ | ⟨-, hk⟩
    · exact htask
    · exact h.owner k p hk hp
  · intro k p hk found hfound
    rcases Dict.get?_set_cases hk with ⟨-, rfl⟩ | ⟨-, hk⟩
    · rfl
    · exact h.committing k p hk found hfound
  · intro k p hk hp hphase
    rcases Dict.get?_set_cases hk with ⟨rfl, rfl⟩ | ⟨-, hk⟩
    · exact hstoring hphase
    · exact h.storing k p hk hp hphase

/-! ## One lemma a step -/

/-- Behind an initiation every poller is cancelled, and none that was not committing commits. -/
theorem cancelTask_spec {s : St} {g : Nat} {p : Poller} (h : Inv s)
    (hc : ∀ g p, Dict.get? s.pollers g = some p → ∀ found, p.phase ≠ .committing found)
    (hget : Dict.get? (cancelTask s) g = some p) : p.cancelled = true ∧ ∀ found, p.phase ≠ .committing found := by
  have hother : ∀ q, Dict.get? s.pollers g = some q → q.cancelled = false → s.task = some g := fun q hq => h.owner g q hq
  unfold cancelTask at hget
  split at hget
  · rename_i k q hfound
    obtain ⟨k', htask, hfound⟩ := Option.bind_eq_some_iff.mp hfound
    obtain ⟨q', hq, hpair⟩ := Option.map_eq_some_iff.mp hfound
    cases hpair
    rcases Dict.get?_set_cases hget with ⟨rfl, rfl⟩ | ⟨hkg, hget⟩
    · exact ⟨rfl, hc k q hq⟩
    · refine ⟨?_, hc g p hget⟩
      cases hp : p.cancelled with
      | true => rfl
      | false =>
        have hg := hother p hget hp
        rw [htask] at hg
        exact absurd (Option.some.inj hg) hkg
  · rename_i hnone
    refine ⟨?_, hc g p hget⟩
    cases hp : p.cancelled with
    | true => rfl
    | false =>
      rw [hother p hget hp, Option.bind_some, hget] at hnone
      cases hnone

theorem initiate_inv {s : St} (h : Inv s) (hc : Quiet s .initiate) : Inv (initiate s) := by
  have hall : ∀ g p, Dict.get? (initiate s).pollers g = some p → p.cancelled = true ∧
      ∀ found, p.phase ≠ .committing found := fun g p hget => cancelTask_spec h hc hget
  refine ⟨⟨h.settled.newest, nofun, h.settled.gone⟩, ?_, nofun, fun _ => rfl, ?_, ?_⟩
  · intro g p hget hp
    rw [(hall g p hget).1] at hp
    cases hp
  · intro g p hget found hfound
    exact absurd hfound ((hall g p hget).2 found)
  · intro g p hget hp
    rw [(hall g p hget).1] at hp
    cases hp

/-- The grant is pending and its poller starts. -/
theorem codeArrives_inv {s : St} (h : Inv s) (hlocked : s.locked = true) :
    Inv { s with
      grant := some ⟨.pending, none, s.generation⟩
      task := some s.generation
      pollers := Dict.set s.pollers s.generation ⟨.polling, false⟩
      locked := false } := by
  have hnone := h.locked hlocked
  have hcancelled : ∀ g p, Dict.get? s.pollers g = some p → p.cancelled ≠ false := by
    intro g p hget hp
    have htask := h.owner g p hget hp
    rw [hnone] at htask
    cases htask
  refine ⟨⟨h.settled.newest, ?_, h.settled.gone⟩, ?_, ?_, nofun, ?_, ?_⟩
  · intro grant hgrant
    cases hgrant
    rfl
  · intro g p hget hp
    rcases Dict.get?_set_cases hget with ⟨rfl, -⟩ | ⟨-, hget⟩
    · rfl
    · exact absurd hp (hcancelled g p hget)
  · intro g hg
    exact (Option.some.inj hg).symm
  · intro g p hget found hfound
    rcases Dict.get?_set_cases hget with ⟨-, rfl⟩ | ⟨-, hget⟩
    · rfl
    · exact h.committing g p hget found hfound
  · intro g p hget hp hstoring
    rcases Dict.get?_set_cases hget with ⟨-, rfl⟩ | ⟨-, hget⟩
    · rcases hstoring with hphase | ⟨found, hphase⟩ <;> cases hphase
    · exact absurd hp (hcancelled g p hget)

theorem polled_inv {s : St} {g : Nat} {result : DeviceTokenResult} (h : Inv s) (hc : Quiet s (.poll g result))
    (hget : Dict.get? s.pollers g = some ⟨.polling, false⟩) : Inv (polled g result s) := by
  unfold polled
  split
  · exact finish_inv g h
  · split
    · exact finish_inv g (status_inv g _ _ h)
    · rename_i hg houtcome
      exact setPhase_inv h (h.owner g _ hget rfl) fun _ =>
        hc (Decidable.of_not_not houtcome) (Decidable.of_not_not hg)

theorem land_inv {s : St} {g : Nat} {found cancelled : Bool} (detail : String) (h : Inv s)
    (hget : Dict.get? s.pollers g = some ⟨.committing found, cancelled⟩) : Inv (land g found cancelled detail s) := by
  have hnot : cancelled = false := h.committing g _ hget found rfl
  subst hnot
  have hnewest := h.newest hget rfl
  have hgone := h.storing g _ hget rfl (.inr ⟨found, rfl⟩)
  unfold land
  split
  · have hstored : Inv { s with row := some g, superseded := s.superseded || decide (g ≠ s.generation) } := by
      refine ⟨⟨?_, h.settled.status, ?_⟩, h.owner, h.current, h.locked, h.committing, h.storing⟩
      · show (s.superseded || decide (g ≠ s.generation)) = false
        rw [h.settled.newest, hnewest]
        simp
      · intro n hn k hk
        cases hk
        exact hgone n hn
    refine setPhase_inv hstored (h.owner g _ hget rfl) ?_
    intro hphase
    rcases hphase with hphase | ⟨_, hphase⟩ <;> cases hphase
  · exact finish_inv g (status_inv g _ _ h)

theorem delete_inv {s : St} (n : Nat) (h : Inv s) (hc : Quiet s .delete) :
    Inv { s with row := none, disconnects := n, deleted := some s.generation } := by
  refine ⟨⟨h.settled.newest, h.settled.status, nofun⟩, h.owner, h.current, h.locked, h.committing, ?_⟩
  intro g p hget hp hstoring
  exact absurd hstoring (hc g p hget hp)

theorem step_inv {s s' : St} {e : Event} (h : Inv s) (hc : Quiet s e) (hst : step s e = some s') : Inv s' := by
  cases e with
  | initiate =>
    obtain ⟨-, hst⟩ := Option.ite_none_left_eq_some.mp hst
    cases hst
    exact initiate_inv h hc
  | codeFails =>
    obtain ⟨-, hst⟩ := Option.ite_none_right_eq_some.mp hst
    cases hst
    exact ⟨⟨h.settled.newest, h.settled.status, h.settled.gone⟩, h.owner, h.current, nofun, h.committing, h.storing⟩
  | codeArrives =>
    obtain ⟨hlocked, hst⟩ := Option.ite_none_right_eq_some.mp hst
    cases hst
    exact codeArrives_inv h hlocked
  | poll g result =>
    obtain ⟨hget, hst⟩ := Option.ite_none_right_eq_some.mp hst
    split at hst
    · cases hst
      exact h
    · cases hst
      exact h
    · cases hst
      exact polled_inv h hc hget
  | pollRaises g detail =>
    obtain ⟨-, hst⟩ := Option.ite_none_right_eq_some.mp hst
    cases hst
    exact finish_inv g (status_inv g _ _ h)
  | select g =>
    obtain ⟨hget, hst⟩ := Option.ite_none_right_eq_some.mp hst
    cases hst
    exact setPhase_inv h (h.owner g _ hget rfl) fun _ => h.storing g _ hget rfl (.inl rfl)
  | land g detail =>
    simp only [step] at hst
    split at hst
    · rename_i hget
      cases hst
      exact land_inv detail h hget
    · cases hst
  | storeRaises g detail =>
    simp only [step] at hst
    split at hst
    · cases hst
      exact finish_inv g (status_inv g _ _ h)
    · cases hst
      exact finish_inv g (status_inv g _ _ h)
    · cases hst
  | started g =>
    simp only [step] at hst
    split at hst
    · cases hst
      exact finish_inv g (status_inv g _ _ h)
    · cases hst
  | die g =>
    obtain ⟨-, hst⟩ := Option.ite_none_right_eq_some.mp hst
    cases hst
    exact finish_inv g h
  | disconnect =>
    obtain ⟨-, hst⟩ := Option.ite_none_right_eq_some.mp hst
    cases hst
    exact ⟨⟨h.settled.newest, h.settled.status, h.settled.gone⟩, h.owner, h.current, h.locked, h.committing, h.storing⟩
  | delete =>
    obtain ⟨-, hst⟩ := Option.ite_none_right_eq_some.mp hst
    cases hst
    exact delete_inv _ h hc

theorem grant_settled {s : St} (h : machine.ReachIf Quiet s) : Settled s := by
  have hstart : ∀ s, machine.init s → Inv s := by
    intro s hs
    obtain ⟨connected, rfl⟩ := hs
    exact start_inv connected
  have hinv : Inv s := Machine.ReachIf.inv hstart (fun _ _ _ hinv hc hst => step_inv hinv hc hst) h
  exact hinv.settled

/-! ## What comes too late -/

/-- A user reconnects, disconnects instead, and the first grant is approved. -/
def approvedAfter : List Event :=
  [.initiate, .codeArrives, .disconnect, .delete, .poll 1 ⟨.tokens, none⟩, .select 1, .land 1 "", .started 1]

theorem a_grant_outlives_the_disconnect : ∃ s, machine.exec (start true) approvedAfter = some s ∧ s.row = some 1 ∧
    s.grant = some ⟨.connected, none, 1⟩ ∧ ¬ Settled s := by
  refine ⟨_, rfl, rfl, rfl, ?_⟩
  intro h
  exact absurd (h.gone 1 rfl 1 rfl) (by decide)

/-- A second initiation while the first's poller commits. -/
def initiatedAgain : List Event :=
  [.initiate, .codeArrives, .poll 1 ⟨.tokens, none⟩, .select 1, .initiate, .land 1 ""]

theorem a_commit_outlives_the_check : ∃ s, machine.exec (start false) initiatedAgain = some s ∧ s.generation = 2 ∧
    s.row = some 1 ∧ ¬ Settled s := by
  refine ⟨_, rfl, rfl, rfl, ?_⟩
  intro h
  exact absurd h.newest (by decide)

/-- A grant abandoned, and the next one approved. -/
def approved : List Event :=
  [.initiate, .codeArrives, .initiate, .codeArrives, .poll 2 ⟨.tokens, none⟩, .select 2, .land 2 "", .started 2]

theorem the_second_connects : ∃ s, machine.exec (start true) approved = some s ∧ s.row = some 2 ∧ Settled s := by
  refine ⟨_, rfl, rfl, grant_settled (@Machine.ReachIf.exec _ _ machine _ _ _ approved (.init ⟨true, rfl⟩) ?_ rfl)⟩
  intro p hp
  rcases List.mem_cons.mp hp with rfl | hp
  · nofun
  rcases List.mem_cons.mp hp with rfl | hp
  · trivial
  rcases List.mem_cons.mp hp with rfl | hp
  · intro g p hget found
    obtain rfl : p = ⟨.polling, false⟩ := by
      have hmem := Dict.mem_of_get? hget
      cases List.mem_singleton.mp hmem
      rfl
    nofun
  rcases List.mem_cons.mp hp with rfl | hp
  · trivial
  rcases List.mem_cons.mp hp with rfl | hp
  · nofun
  rcases List.mem_cons.mp hp with rfl | hp
  · trivial
  rcases List.mem_cons.mp hp with rfl | hp
  · trivial
  rw [List.mem_singleton.mp hp]
  trivial

end Errand.Server.DeviceGrants

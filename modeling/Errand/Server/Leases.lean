import Errand.Lib.ExpiringKey
import Errand.Lib.Machine
import Mathlib.Logic.Function.Basic

/-
  Errand.Server.Leases — the lock of the scheduler (scheduler.py) and the one of the zombie
  cleanup (zombie_cleanup.py), each a key in Valkey with a time to live.

  Actors. Any replicas `ι`, each with a hostname. In each cycle a replica acquires the lock
  (SET NX; if that fails, GET, and EXPIRE if the value is its own), works, and refreshes the
  lock (EXPIRE); between cycles it may be shut down, which releases the lock: by a script
  that deletes the key only if its value is the replica's own (scheduler), or by DEL (zombie
  cleanup). Each command is one step. Time passes between any two, and an entry may be gone
  before its time. The reply to a command may be lost, and a cycle given up at any point.

  Proved:
  - `leases_kept`: in the runs whose steps are `Timely`, no replica deletes or extends the
    lease of another, and acquiring returns True only to the owner.
  - `untimely_harms`: a step that is not `Timely` does harm, or one of the next two can.
  - `a_shutdown_ends_a_lease`: a replica that is shut down deletes the zombie cleanup's lock
    of another.
-/

namespace Errand.Server.Leases

open Errand.Lib Errand.Lib.ExpiringKey

/-- Where a replica is between two commands of a cycle. -/
inductive Phase where
  | idle
  /-- SET NX failed; GET is next. -/
  | refused
  /-- GET returned its own value; EXPIRE is next. -/
  | confirmed
  /-- Acquiring returned True; the refresh is next. -/
  | working
  deriving DecidableEq, Repr

/-- What the two locks differ in. -/
structure Kind (ι : Type) where
  lockValue : ι → String
  ttl : Nat
  /-- Whether the release checks the value. -/
  checks : Bool

inductive Which where
  | scheduler
  | zombie
  deriving DecidableEq, Repr

def lockTtl : Nat := 30
def zombieLockTtl : Nat := 30

def kind {ι : Type} (hostname : ι → String) : Which → Kind ι
  | .scheduler => ⟨hostname, lockTtl, true⟩
  | .zombie => ⟨fun p => "zombie-" ++ hostname p, zombieLockTtl, false⟩

structure Lock (ι : Type) where
  key : Option (Entry String)
  phase : ι → Phase

/-- The commands of the replicas, each with whether its reply arrives; a cycle that is given
    up; the time. -/
inductive Ev (ι : Type) where
  | set (p : ι) (reply : Bool)
  | get (p : ι) (reply : Bool)
  | extend (p : ι) (reply : Bool)
  | refresh (p : ι)
  | release (p : ι)
  | abandon (p : ι)
  | elapse (n : Nat)
  | evict
  deriving DecidableEq

section Lock

variable {ι : Type} (k : Kind ι)

/-- What the phase of a replica becomes when a reply arrives, or does not. -/
def after (reply : Bool) (phase : Phase) : Phase := if reply then phase else .idle

section Step

variable [DecidableEq ι]

def Lock.turned (s : Lock ι) (p : ι) (phase : Phase) : Lock ι := { s with phase := Function.update s.phase p phase }

def lockStep (s : Lock ι) : Ev ι → Option (Lock ι)
  | .set p reply =>
    if s.phase p = .idle then
      let (result, key) := setNx s.key (k.lockValue p) k.ttl
      some ({ s with key := key }.turned p (after reply (if result then .working else .refused)))
    else none
  | .get p reply =>
    if s.phase p = .refused then
      some (s.turned p (after reply (if ExpiringKey.get s.key = some (k.lockValue p) then .confirmed else .idle)))
    else none
  | .extend p reply =>
    if s.phase p = .confirmed then some ({ s with key := expire s.key k.ttl }.turned p (after reply .working))
    else none
  | .refresh p =>
    if s.phase p = .working then some ({ s with key := expire s.key k.ttl }.turned p .idle) else none
  | .release p =>
    if s.phase p = .idle then
      some { s with key := if k.checks then delIf s.key (k.lockValue p) else none }
    else none
  | .abandon p => some (s.turned p .idle)
  | .elapse n => some { s with key := ExpiringKey.elapse s.key n }
  | .evict => some { s with key := none }

end Step

/-- The replica is the recorded owner. -/
def Owns (s : Lock ι) (p : ι) : Prop := ExpiringKey.get s.key = some (k.lockValue p)

/-- Acquiring returned True to the replica in this step. -/
def Acquires (s' : Lock ι) (p : ι) : Ev ι → Prop
  | .set q true => q = p ∧ s'.phase p = .working
  | .extend q true => q = p
  | _ => False

/-- The replica that refreshes or releases the lock in this step. -/
def Ev.writer : Ev ι → Option ι
  | .extend p _ => some p
  | .refresh p => some p
  | .release p => some p
  | _ => none

/-- A step leaves the lease of another as it is, and acquires the lock for its owner only. -/
structure Harmless (s : Lock ι) (e : Ev ι) (s' : Lock ι) : Prop where
  others : ∀ p q, e.writer = some p → q ≠ p → Owns k s q → s'.key = s.key
  acquired : ∀ p, Acquires s' p e → Owns k s' p

/-- No lease is taken while another replica has yet to extend the one it was told it has; none
    ends between the GET of its owner and the EXPIRE that follows; and a release that does not
    check the value finds no other's. -/
def TimelyLock (s : Lock ι) : Ev ι → Prop
  | .set p _ => s.key = none → ∀ q, q ≠ p → s.phase q ≠ .confirmed ∧ s.phase q ≠ .working
  | .elapse n => ExpiringKey.elapse s.key n = none → ∀ q, s.phase q ≠ .confirmed
  | .evict => ∀ q, s.phase q ≠ .confirmed
  | .release p => k.checks = false → ∀ q, q ≠ p → ¬ Owns k s q
  | _ => True

/-- What a replica that goes on with its cycle relies on. -/
structure Inv (s : Lock ι) : Prop where
  confirmed : ∀ p, s.phase p = .confirmed → Owns k s p
  working : ∀ p q, s.phase p = .working → Owns k s q → q = p

/-! ## One step of one lock -/

variable {k} {s : Lock ι}

theorem Owns.unique (hinj : Function.Injective k.lockValue) {p q : ι} (hp : Owns k s p) (hq : Owns k s q) : p = q :=
  hinj (Option.some.inj (hp.symm.trans hq))

/-- An invariant is kept where no lease changes hands, and none ends that a replica confirmed. -/
theorem Inv.fewer {s' : Lock ι} (h : Inv k s) (hphase : s'.phase = s.phase)
    (hconfirmed : ∀ p, s.phase p = .confirmed → Owns k s' p) (howns : ∀ p, Owns k s' p → Owns k s p) : Inv k s' := by
  constructor
  · intro p hp
    rw [hphase] at hp
    exact hconfirmed p hp
  · intro p q hp hq
    rw [hphase] at hp
    exact h.working p q hp (howns q hq)

theorem Inv.expired (h : Inv k s) (ttl : Nat) : Inv k { s with key := expire s.key ttl } := by
  refine h.fewer rfl ?_ ?_
  · intro p hp
    exact (get_expire ..).trans (h.confirmed p hp)
  · intro p hp
    exact (get_expire ..).symm.trans hp

/-- The lease ends, at most. -/
theorem ended_harmless (h : Inv k s) {key : Option (Entry String)} {e : Ev ι} (he : e.writer = none)
    (hnot : ∀ p, ¬ Acquires { s with key := key } p e)
    (hkey : ∀ value, ExpiringKey.get key = some value → ExpiringKey.get s.key = some value)
    (hgone : key = none → ∀ q, s.phase q ≠ .confirmed) :
    Inv k { s with key := key } ∧ Harmless k s e { s with key := key } := by
  refine ⟨h.fewer rfl ?_ fun q hq => hkey _ hq, ?_, fun q hq => absurd hq (hnot q)⟩
  · intro q hq
    cases key with
    | none => exact absurd hq (hgone rfl q)
    | some entry => exact (hkey entry.value rfl).symm.trans (h.confirmed q hq)
  · intro r q hr
    rw [he] at hr
    cases hr

variable [DecidableEq ι]

theorem turned_self (s : Lock ι) (p : ι) (phase : Phase) : (s.turned p phase).phase p = phase := by
  simp [Lock.turned]

theorem turned_other (s : Lock ι) {p q : ι} (phase : Phase) (h : q ≠ p) : (s.turned p phase).phase q = s.phase q := by
  simp [Lock.turned, h]

/-- A replica turns to a phase in which it may rely on what the phase asks for. -/
theorem Inv.turned (h : Inv k s) {p : ι} {phase : Phase} (hconfirmed : phase = .confirmed → Owns k s p)
    (hworking : phase = .working → ∀ q, Owns k s q → q = p) : Inv k (s.turned p phase) := by
  constructor
  · intro q hq
    by_cases hqp : q = p
    · subst hqp
      rw [turned_self] at hq
      exact hconfirmed hq
    · rw [turned_other s _ hqp] at hq
      exact h.confirmed q hq
  · intro q r hq hr
    by_cases hqp : q = p
    · subst hqp
      rw [turned_self] at hq
      exact hworking hq r hr
    · rw [turned_other s _ hqp] at hq
      exact h.working q r hq hr

theorem after_eq {reply : Bool} {phase phase' : Phase} (h : after reply phase = phase') (hidle : phase' ≠ .idle) :
    reply = true ∧ phase = phase' := by
  cases reply with
  | false => exact absurd h.symm hidle
  | true => exact ⟨rfl, h⟩

section Effects

variable {p : ι} {reply : Bool} {s' : Lock ι}

theorem set_harmless (hinj : Function.Injective k.lockValue) (h : Inv k s) (ht : TimelyLock k s (.set p reply))
    (hs : lockStep k s (.set p reply) = some s') : Inv k s' ∧ Harmless k s (.set p reply) s' := by
  obtain ⟨key, phase⟩ := s
  simp only [lockStep] at hs
  split at hs
  · rename_i hidle
    cases key with
    | none =>
      obtain rfl := Option.some.inj hs
      have hself : Owns k ⟨some ⟨k.lockValue p, k.ttl⟩, phase⟩ p := rfl
      -- nobody else is in the middle of a cycle
      have hbusy : ∀ q, phase q = .confirmed ∨ phase q = .working → False := by
        intro q hq
        by_cases hqp : q = p
        · rw [hqp, hidle] at hq
          rcases hq with hq | hq <;> cases hq
        · exact hq.elim (ht rfl q hqp).1 (ht rfl q hqp).2
      have hinv : Inv k ⟨some ⟨k.lockValue p, k.ttl⟩, phase⟩ :=
        ⟨fun q hq => (hbusy q (.inl hq)).elim, fun q _ hq _ => (hbusy q (.inr hq)).elim⟩
      refine ⟨hinv.turned ?_ ?_, by nofun, ?_⟩
      · intro _
        exact hself
      · intro _ q hq
        exact Owns.unique hinj hq hself
      · intro q hq
        cases reply with
        | false => exact absurd hq id
        | true => exact hq.1 ▸ hself
    | some entry =>
      obtain rfl := Option.some.inj hs
      refine ⟨h.turned ?_ ?_, by nofun, ?_⟩
      · intro hphase
        cases (after_eq hphase nofun).2
      · intro hphase
        cases (after_eq hphase nofun).2
      · intro q hq
        cases reply with
        | false => exact absurd hq id
        | true =>
          obtain ⟨rfl, hphase⟩ := hq
          exact absurd ((turned_self _ p _).symm.trans hphase) nofun
  · cases hs

theorem get_harmless (h : Inv k s) (hs : lockStep k s (.get p reply) = some s') :
    Inv k s' ∧ Harmless k s (.get p reply) s' := by
  simp only [lockStep] at hs
  split at hs
  · obtain rfl := Option.some.inj hs
    refine ⟨h.turned ?_ ?_, by nofun, ?_⟩
    · intro hphase
      obtain ⟨-, hphase⟩ := after_eq hphase nofun
      split at hphase
      · assumption
      · cases hphase
    · intro hphase
      obtain ⟨-, hphase⟩ := after_eq hphase nofun
      split at hphase <;> cases hphase
    · intro q hq
      exact absurd hq id
  · cases hs

theorem extend_harmless (hinj : Function.Injective k.lockValue) (h : Inv k s)
    (hs : lockStep k s (.extend p reply) = some s') : Inv k s' ∧ Harmless k s (.extend p reply) s' := by
  simp only [lockStep] at hs
  split at hs
  · rename_i hphase
    obtain rfl := Option.some.inj hs
    have hself := h.confirmed p hphase
    have hself' : Owns k { s with key := expire s.key k.ttl } p := (get_expire ..).trans hself
    refine ⟨(h.expired k.ttl).turned ?_ ?_, ?_, ?_⟩
    · intro _
      exact hself'
    · intro _ q hq
      exact Owns.unique hinj hq hself'
    · intro r q hr hne hq
      obtain rfl := Option.some.inj hr
      exact absurd (Owns.unique hinj hq hself) hne
    · intro q hq
      cases reply with
      | false => exact absurd hq id
      | true =>
        obtain rfl : p = q := hq
        exact hself'
  · cases hs

theorem refresh_harmless (h : Inv k s) (hs : lockStep k s (.refresh p) = some s') :
    Inv k s' ∧ Harmless k s (.refresh p) s' := by
  simp only [lockStep] at hs
  split at hs
  · rename_i hphase
    obtain rfl := Option.some.inj hs
    refine ⟨(h.expired k.ttl).turned nofun nofun, ?_, ?_⟩
    · intro r q hr hne hq
      obtain rfl := Option.some.inj hr
      exact absurd (h.working p q hphase hq) hne
    · intro q hq
      exact absurd hq id
  · cases hs

theorem release_harmless (hinj : Function.Injective k.lockValue) (h : Inv k s) (ht : TimelyLock k s (.release p))
    (hs : lockStep k s (.release p) = some s') : Inv k s' ∧ Harmless k s (.release p) s' := by
  simp only [lockStep] at hs
  split at hs
  · rename_i hidle
    obtain rfl := Option.some.inj hs
    -- the lease of another is left as it is
    have hkept : ∀ q, q ≠ p → Owns k s q → (if k.checks then delIf s.key (k.lockValue p) else none) = s.key := by
      intro q hne hq
      cases hchecks : k.checks with
      | false => exact absurd hq (ht hchecks q hne)
      | true =>
        rw [if_pos rfl]
        exact delIf_other fun hp => hne (Owns.unique hinj hq hp)
    refine ⟨h.fewer rfl ?_ ?_, ?_, ?_⟩
    · intro q hq
      have hne : q ≠ p := by
        rintro rfl
        exact absurd (hidle.symm.trans hq) (by decide)
      exact (congrArg ExpiringKey.get (hkept q hne (h.confirmed q hq))).trans (h.confirmed q hq)
    · intro q hq
      unfold Owns at hq
      simp only at hq
      split at hq
      · exact get_delIf_some hq
      · cases hq
    · intro r q hr hne hq
      obtain rfl := Option.some.inj hr
      exact hkept q hne hq
    · intro q hq
      exact absurd hq id
  · cases hs

/-- A timely step of a lock. -/
theorem lockStep_harmless (hinj : Function.Injective k.lockValue) {e : Ev ι} (h : Inv k s) (ht : TimelyLock k s e)
    (hs : lockStep k s e = some s') : Inv k s' ∧ Harmless k s e s' := by
  cases e with
  | set p reply => exact set_harmless hinj h ht hs
  | get p reply => exact get_harmless h hs
  | extend p reply => exact extend_harmless hinj h hs
  | refresh p => exact refresh_harmless h hs
  | release p => exact release_harmless hinj h ht hs
  | abandon p =>
    obtain rfl := Option.some.inj hs
    exact ⟨h.turned nofun nofun, by nofun, fun q hq => absurd hq id⟩
  | elapse n =>
    obtain rfl := Option.some.inj hs
    exact ended_harmless h rfl (fun _ => id) (fun _ => get_elapse_some) ht
  | evict =>
    obtain rfl := Option.some.inj hs
    exact ended_harmless h rfl (fun _ => id) nofun fun _ => ht

end Effects

/-! ## What a step that is not timely leads to -/

def lockMachine (k : Kind ι) : Machine (Lock ι) (Ev ι) := ⟨fun s => ∀ p, s.phase p = .idle, lockStep k⟩

/-- Some step of the run is not harmless. -/
def Harms (k : Kind ι) (s : Lock ι) (es : List (Ev ι)) : Prop :=
  ∃ t e t', (t, e) ∈ (lockMachine k).trace s es ∧ lockStep k t e = some t' ∧ ¬ Harmless k t e t'

theorem Harms.cons {e : Ev ι} {es : List (Ev ι)} {s' : Lock ι} (hs : lockStep k s e = some s') (h : Harms k s' es) :
    Harms k s (e :: es) := by
  obtain ⟨t, f, t', hmem, hstep, hnot⟩ := h
  refine ⟨t, f, t', ?_, hstep, hnot⟩
  rw [(lockMachine k).trace_cons hs]
  exact List.mem_cons_of_mem _ hmem

theorem Harms.now {e : Ev ι} {es : List (Ev ι)} {s' : Lock ι} (hs : lockStep k s e = some s')
    (h : ¬ Harmless k s e s') : Harms k s (e :: es) := by
  refine ⟨s, e, s', ?_, hs, h⟩
  rw [(lockMachine k).trace_cons hs]
  exact List.mem_cons_self ..

/-- Where there is no lease, a replica that confirmed its own is told it has it. -/
theorem extend_harms {q : ι} (hq : s.phase q = .confirmed) (hkey : s.key = none) : Harms k s [.extend q true] := by
  refine Harms.now (if_pos hq) fun h => ?_
  have howns : ExpiringKey.get (expire s.key k.ttl) = some (k.lockValue q) := h.acquired q rfl
  rw [hkey] at howns
  cases howns

/-- A replica in the middle of its cycle extends the lease of another. -/
theorem write_harms (httl : 1 < k.ttl) {p q : ι} (hne : p ≠ q)
    (hq : s.phase q = .confirmed ∨ s.phase q = .working) (hkey : s.key = some ⟨k.lockValue p, k.ttl⟩) :
    ∃ e, Harms k s [.elapse 1, e] := by
  obtain ⟨key, phase⟩ := s
  obtain rfl : key = _ := hkey
  have helapse : lockStep k ⟨some ⟨k.lockValue p, k.ttl⟩, phase⟩ (.elapse 1) =
      some ⟨some ⟨k.lockValue p, k.ttl - 1⟩, phase⟩ := by
    simp [lockStep, ExpiringKey.elapse, httl]
  have hshort : ((⟨k.lockValue p, k.ttl - 1⟩ : Entry String)).ttl ≠ k.ttl := by
    change k.ttl - 1 ≠ k.ttl
    omega
  rcases hq with hq | hq
  · refine ⟨.extend q true, Harms.cons helapse (Harms.now (if_pos hq) fun h => ?_)⟩
    exact expire_ne hshort (h.others q p rfl hne rfl)
  · refine ⟨.refresh q, Harms.cons helapse (Harms.now (if_pos hq) fun h => ?_)⟩
    exact expire_ne hshort (h.others q p rfl hne rfl)

end Lock

/-! ## Both locks -/

section Locks

variable {ι : Type} {hostname : ι → String}

theorem lockValue_injective (hinj : Function.Injective hostname) (lock : Which) :
    Function.Injective (kind hostname lock).lockValue := by
  cases lock with
  | scheduler => exact hinj
  | zombie =>
    intro p q h
    exact hinj ((String.append_right_inj _).mp h)

variable [DecidableEq ι] (hostname)

abbrev Locks (ι : Type) := Which → Lock ι

def step (s : Locks ι) (e : Which × Ev ι) : Option (Locks ι) :=
  (lockStep (kind hostname e.1) (s e.1) e.2).map (Function.update s e.1)

/-- No replica is in a cycle; the keys are as those before left them. -/
def machine : Machine (Locks ι) (Which × Ev ι) := ⟨fun s => ∀ lock p, (s lock).phase p = .idle, step hostname⟩

def Timely (s : Locks ι) (e : Which × Ev ι) : Prop := TimelyLock (kind hostname e.1) (s e.1) e.2

variable {hostname}

theorem inv_step (hinj : Function.Injective hostname) {s s' : Locks ι} {e : Which × Ev ι}
    (h : ∀ lock, Inv (kind hostname lock) (s lock)) (ht : Timely hostname s e) (hs : step hostname s e = some s') :
    ∀ lock, Inv (kind hostname lock) (s' lock) := by
  obtain ⟨l, hl, rfl⟩ := Option.map_eq_some_iff.mp hs
  intro lock
  by_cases hlock : lock = e.1
  · subst hlock
    rw [Function.update_self]
    exact (lockStep_harmless (lockValue_injective hinj _) (h _) ht hl).1
  · rw [Function.update_of_ne hlock]
    exact h lock

/-- In every run whose steps are timely, each is harmless. -/
theorem leases_kept (hinj : Function.Injective hostname) {s : Locks ι} {es : List (Which × Ev ι)}
    (hinit : ∀ lock p, (s lock).phase p = .idle)
    (ht : ∀ x ∈ (machine hostname).trace s es, Timely hostname x.1 x.2) :
    ∀ x ∈ (machine hostname).trace s es, ∀ s', step hostname x.1 x.2 = some s' →
      Harmless (kind hostname x.2.1) (x.1 x.2.1) x.2.2 (s' x.2.1) := by
  intro x hx s' hs
  have hreach := Machine.ReachIf.trace (.init hinit) ht hx
  have hinv : ∀ lock, Inv (kind hostname lock) (x.1 lock) := by
    refine hreach.inv (P := fun s => ∀ lock, Inv (kind hostname lock) (s lock)) ?_ ?_
    · intro s h lock
      constructor
      · intro p hp
        rw [h lock p] at hp
        cases hp
      · intro p q hp
        rw [h lock p] at hp
        cases hp
    · intro s e s' h he hse
      exact inv_step hinj h he hse
  obtain ⟨l, hl, rfl⟩ := Option.map_eq_some_iff.mp hs
  rw [Function.update_self]
  exact (lockStep_harmless (lockValue_injective hinj _) (hinv _) (ht x hx) hl).2

end Locks

/-! ## Two replicas -/

def names (p : Bool) : String := if p then "errand-a" else "errand-b"

def noLocks : Locks Bool := fun _ => ⟨none, fun _ => .idle⟩

theorem names_injective : Function.Injective names := by
  intro p q h
  cases p <;> cases q <;> first | rfl | exact absurd h (by decide)

/-- Both replicas try for the lock of the scheduler; the one that gets it refreshes it, and
    the other is shut down. -/
def cycle : List (Which × Ev Bool) :=
  [(.scheduler, .set true true), (.scheduler, .set false true), (.scheduler, .get false true),
    (.scheduler, .refresh true), (.scheduler, .release false)]

theorem cycle_harmless :
    (∀ lock p, (noLocks lock).phase p = .idle) ∧
      ∀ x ∈ (machine names).trace noLocks cycle, ∀ s', step names x.1 x.2 = some s' →
        Harmless (kind names x.2.1) (x.1 x.2.1) x.2.2 (s' x.2.1) := by
  refine ⟨fun _ _ => rfl, leases_kept names_injective (fun _ _ => rfl) ?_⟩
  intro x hx
  rcases List.mem_cons.mp hx with rfl | hx
  · exact fun _ q _ => ⟨nofun, nofun⟩
  rcases List.mem_cons.mp hx with rfl | hx
  · exact nofun
  rcases List.mem_cons.mp hx with rfl | hx
  · exact trivial
  rcases List.mem_cons.mp hx with rfl | hx
  · exact trivial
  rcases List.mem_cons.mp hx with rfl | hx
  · exact nofun
  cases hx

/-- A replica cleans up zombies; another is shut down, and deletes the lock of the first. -/
theorem a_shutdown_ends_a_lease :
    (∀ lock p, (noLocks lock).phase p = .idle) ∧
      ∃ x ∈ (machine names).trace noLocks [(.zombie, .set true true), (.zombie, .release false)],
        ∃ s', step names x.1 x.2 = some s' ∧ ¬ Harmless (kind names x.2.1) (x.1 x.2.1) x.2.2 (s' x.2.1) := by
  refine ⟨fun _ _ => rfl, _, List.mem_cons_of_mem _ (List.mem_cons_self ..), _, rfl, ?_⟩
  intro h
  have hkept := h.others false true rfl (by decide) rfl
  cases hkept

end Errand.Server.Leases

import Errand.Lib.Machine

/-
  Errand.Server.CloudConnection — the connections of the cloud client and their close codes
  (`CloudWebSocketClient.run`, `_connect_and_receive`, `_handle_close` of `cloud_client.py`).

  A connection is made with the stored credential, announces itself, waits for
  `registered` and then receives. A close surfaces where the client is at the time: sending
  its announcement, in the wait, or receiving; the first and the last hand its code to
  `_handle_close`, the wait catches every exception of its own and gives the connection up
  without it. A completed handshake puts the count of evictions back to zero.

  What each refresh of the tokens is answered, and what else happens to the credential, is
  open.

  Proved:
  - `closes_obeyed`: a close that surfaces outside the wait is obeyed (4003 stops the client
    and marks the credential, 4002 refreshes and stops where that fails), a client that has
    stopped stays so, and between two handshakes at most MAX_CONSECUTIVE_EVICTIONS closes
    with 4001 are heard, the last of which stops the client.
  - `evictions_unbounded`: with the handshake completed each time, any number of evictions
    is followed by a reconnect.
  - `wait_unheard`: a close in the wait changes nothing but the connection.
-/

namespace Errand.Server.CloudConnection

open Errand.Lib

inductive Phase where
  | idle
  | sending
  | waiting
  | receiving
  | ended
  deriving DecidableEq, Repr

/-- The stored cloud credential, as far as the client looks at it. -/
structure Credential where
  status : String
  readable : Bool
  deriving DecidableEq, Repr

structure St where
  phase : Phase
  running : Bool
  consecutiveEvictions : Nat
  credential : Option Credential
  /-- The refreshes tried, and whether each succeeded. -/
  refreshes : List Bool
  deriving DecidableEq, Repr

def maxConsecutiveEvictions : Nat := 5

def authExpiredCode : Nat := 4002

def noReconnectCodes : List Nat := [4003]

/-! ## The client -/

/-- `_load_credentials` finds a credential to connect with. -/
def loads (credential : Option Credential) : Bool := credential.any fun c => c.status = "connected" && c.readable

def setCredentialStatus (status : String) (s : St) : St :=
  { s with credential := s.credential.map fun c => { c with status } }

/-- `_try_refresh_token`; without a credential there is nothing to refresh. -/
def tryRefreshToken (answer : Bool) (s : St) : Bool × St :=
  let refreshed := s.credential.isSome && answer
  (refreshed, { s with refreshes := s.refreshes ++ [refreshed] })

/-- A refresh, and a stop where it fails. -/
def refreshOrStop (answer : Bool) (s : St) : St :=
  let (refreshed, s) := tryRefreshToken answer s
  if refreshed then s else { setCredentialStatus "error" s with running := false }

def handleClose (code : Nat) (answer : Bool) (s : St) : St :=
  if code = 4001 then
    { s with
      consecutiveEvictions := s.consecutiveEvictions + 1
      running := s.running && !decide (s.consecutiveEvictions + 1 ≥ maxConsecutiveEvictions) }
  else if code = authExpiredCode then refreshOrStop answer s
  else if noReconnectCodes.contains code then { setCredentialStatus "error" s with running := false }
  else s

/-- `_connect_and_receive` has returned or raised, and `run` looks at the flag. -/
def disconnected (s : St) : St := { s with phase := if s.running then .idle else .ended }

inductive Handshake where
  | accepted
  | rejected (status : Nat) (answer : Bool)
  | failed
  deriving DecidableEq, Repr

inductive Event where
  | connect (h : Handshake)
  | registerSent
  /-- `registered`, another message, or no message in time. -/
  | registered
  | closed (code : Nat) (answer : Bool)
  /-- Another exception. -/
  | failed
  /-- No message for 90 s: the client closes the connection itself. -/
  | silent
  /-- The flag is found cleared between two messages, or after the delay. -/
  | left
  | stop
  | cancel
  | credential (c : Option Credential)
  deriving DecidableEq, Repr

def connect (h : Handshake) (s : St) : St :=
  if loads s.credential then
    match h with
    | .accepted => { s with phase := .sending }
    | .rejected status answer => disconnected (if status = 401 then refreshOrStop answer s else s)
    | .failed => disconnected s
  else disconnected { s with running := false }

/-- The close surfaces where the client is. -/
def closed (code : Nat) (answer : Bool) (s : St) : Option St :=
  match s.phase with
  -- A regular close is a ConnectionClosedOK, which nobody catches but `run`.
  | .sending => some (disconnected (if code = 1000 ∨ code = 1001 then s else handleClose code answer s))
  | .waiting => some (disconnected s)
  | .receiving => some (disconnected (handleClose code answer s))
  | _ => none

def connected (s : St) : Bool := s.phase = .sending || s.phase = .waiting || s.phase = .receiving

def step (s : St) : Event → Option St
  | .connect h => if s.phase = .idle ∧ s.running = true then some (connect h s) else none
  | .registerSent => if s.phase = .sending then some { s with phase := .waiting } else none
  | .registered =>
    if s.phase = .waiting then some { s with phase := .receiving, consecutiveEvictions := 0 } else none
  | .closed code answer => closed code answer s
  | .failed => if connected s then some (disconnected s) else none
  | .silent => if s.phase = .receiving then some (disconnected s) else none
  | .left =>
    if (s.phase = .receiving ∨ s.phase = .idle) ∧ s.running = false then some { s with phase := .ended } else none
  | .stop => if s.phase = .ended then none else some { s with running := false }
  | .cancel => if s.phase = .ended then none else some { s with phase := .ended }
  | .credential c => some { s with credential := c }

def start (credential : Option Credential) : St := ⟨.idle, true, 0, credential, []⟩

def machine : Machine St Event where
  init s := ∃ credential, s = start credential
  step := step

/-- The close with that code surfaces outside the wait. -/
def hears (code : Nat) (s : St) : Event → Bool
  | .closed c _ => c = code && s.phase != .waiting
  | _ => false

/-- What the client owes to a close it hears. -/
structure Obeys (s : St) (e : Event) (s' : St) : Prop where
  suspended : hears 4003 s e = true → s'.phase = .ended ∧ ∀ c, s'.credential = some c → c.status = "error"
  expired : hears authExpiredCode s e = true →
    ∃ refreshed, s'.refreshes = s.refreshes ++ [refreshed] ∧ (refreshed = false → s'.phase = .ended)

/-! ## One close -/

theorem disconnected_ended {s : St} (h : s.running = false) : (disconnected s).phase = .ended := by
  unfold disconnected
  rw [h]
  rfl

theorem refreshOrStop_spec (answer : Bool) (s : St) :
    ∃ refreshed, (refreshOrStop answer s).refreshes = s.refreshes ++ [refreshed] ∧
      (refreshed = false → (refreshOrStop answer s).running = false) := by
  refine ⟨s.credential.isSome && answer, ?_⟩
  unfold refreshOrStop tryRefreshToken
  dsimp only
  split
  · rename_i h
    refine ⟨rfl, ?_⟩
    intro hfalse
    rw [hfalse] at h
    cases h
  · exact ⟨rfl, fun _ => rfl⟩

theorem refreshOrStop_evictions (answer : Bool) (s : St) :
    (refreshOrStop answer s).consecutiveEvictions = s.consecutiveEvictions := by
  unfold refreshOrStop tryRefreshToken
  dsimp only
  split <;> rfl

theorem error_set (s : St) : ∀ c, (setCredentialStatus "error" s).credential = some c → c.status = "error" := by
  intro c hc
  obtain ⟨old, -, rfl⟩ := Option.map_eq_some_iff.mp hc
  rfl

/-- Where a close is heard, its code is handled and the connection is over. -/
theorem heard {s s' : St} {code c : Nat} {answer : Bool} (hhears : hears code s (.closed c answer) = true)
    (hcode : code ≠ 1000 ∧ code ≠ 1001) (h : step s (.closed c answer) = some s') :
    s' = disconnected (handleClose code answer s) := by
  unfold hears at hhears
  obtain ⟨hc, hphase⟩ := Bool.and_eq_true _ _ ▸ hhears
  have hc : c = code := of_decide_eq_true hc
  subst hc
  change closed c answer s = some s' at h
  unfold closed at h
  split at h
  · rw [if_neg (not_or.mpr hcode)] at h
    cases h
    rfl
  · rename_i hwaiting
    rw [hwaiting] at hphase
    cases hphase
  · cases h
    rfl
  · cases h

theorem step_obeys {s s' : St} {e : Event} (h : step s e = some s') : Obeys s e s' := by
  constructor
  · intro hhears
    cases e with
    | closed c answer =>
      rw [heard hhears (by decide) h]
      exact ⟨disconnected_ended rfl, error_set s⟩
    | _ => cases hhears
  · intro hhears
    cases e with
    | closed c answer =>
      rw [heard hhears (by decide) h]
      obtain ⟨refreshed, hrefreshes, hstops⟩ := refreshOrStop_spec answer s
      exact ⟨refreshed, hrefreshes, fun hfalse => disconnected_ended (hstops hfalse)⟩
    | _ => cases hhears

/-- A close in the wait goes unheard, whatever its code. -/
theorem wait_unheard {s s' : St} {code : Nat} {answer : Bool} (hphase : s.phase = .waiting)
    (h : step s (.closed code answer) = some s') :
    s' = { s with phase := if s.running then .idle else .ended } := by
  change closed code answer s = some s' at h
  unfold closed at h
  rw [hphase] at h
  cases h
  rfl

theorem ended_stays {s s' : St} {e : Event} (hended : s.phase = .ended) (h : step s e = some s') : s'.phase = .ended := by
  cases e with
  | credential c =>
    cases h
    exact hended
  | _ => simp [step, closed, connected, hended] at h

/-! ## Evictions -/

/-- A client that goes on has room for another eviction. -/
structure Inv (s : St) : Prop where
  bounded : s.consecutiveEvictions ≤ maxConsecutiveEvictions
  room : s.phase ≠ .ended → s.consecutiveEvictions < maxConsecutiveEvictions

theorem start_inv (credential : Option Credential) : Inv (start credential) := by
  constructor
  · show 0 ≤ maxConsecutiveEvictions
    decide
  · intro _
    show 0 < maxConsecutiveEvictions
    decide

/-- What leaves the count alone keeps the invariant of a client that has not ended. -/
theorem Inv.same {s s' : St} (hinv : Inv s) (hphase : s.phase ≠ .ended)
    (h : s'.consecutiveEvictions = s.consecutiveEvictions) : Inv s' := by
  have hroom := hinv.room hphase
  constructor
  · omega
  · intro _
    omega

theorem disconnected_inv {s : St} (hle : s.consecutiveEvictions ≤ maxConsecutiveEvictions)
    (hroom : s.running = true → s.consecutiveEvictions < maxConsecutiveEvictions) : Inv (disconnected s) := by
  refine ⟨hle, ?_⟩
  intro hphase
  cases hrunning : s.running with
  | true => exact hroom hrunning
  | false => exact absurd (disconnected_ended hrunning) hphase

theorem handleClose_evictions (code : Nat) (answer : Bool) (s : St) :
    (handleClose code answer s).consecutiveEvictions = s.consecutiveEvictions + if code = 4001 then 1 else 0 := by
  unfold handleClose
  split
  · rfl
  · split
    · exact refreshOrStop_evictions answer s
    · split <;> rfl

theorem handleClose_inv {s : St} (code : Nat) (answer : Bool) (h : s.consecutiveEvictions < maxConsecutiveEvictions) :
    Inv (disconnected (handleClose code answer s)) := by
  have hevictions := handleClose_evictions code answer s
  refine disconnected_inv (by split at hevictions <;> omega) ?_
  intro hrunning
  by_cases hcode : code = 4001
  · unfold handleClose at hrunning ⊢
    rw [if_pos hcode] at hrunning ⊢
    have hbelow := (Bool.and_eq_true _ _ ▸ hrunning).2
    simp only [ge_iff_le, Bool.not_eq_true', decide_eq_false_iff_not] at hbelow
    show s.consecutiveEvictions + 1 < maxConsecutiveEvictions
    omega
  · rw [if_neg hcode] at hevictions
    omega

theorem connect_evictions (h : Handshake) (s : St) : (connect h s).consecutiveEvictions = s.consecutiveEvictions := by
  unfold connect
  split
  · cases h with
    | accepted => rfl
    | rejected status answer =>
      dsimp only [disconnected]
      split
      · exact refreshOrStop_evictions answer s
      · rfl
    | failed => rfl
  · rfl

/-- A close adds to the count exactly if it is an eviction that is heard. -/
theorem closed_inv {s s' : St} {code : Nat} {answer : Bool} (hinv : Inv s) (h : closed code answer s = some s') :
    Inv s' ∧ s'.consecutiveEvictions = s.consecutiveEvictions + (hears 4001 s (.closed code answer)).toNat := by
  have hcount : ∀ t : St, t.consecutiveEvictions = s.consecutiveEvictions + (if code = 4001 then 1 else 0) →
      s.phase ≠ .waiting → t.consecutiveEvictions = s.consecutiveEvictions + (hears 4001 s (.closed code answer)).toNat := by
    intro t ht hphase
    rw [ht]
    unfold hears
    have hheard : (s.phase != .waiting) = true := bne_iff_ne.mpr hphase
    rw [hheard]
    by_cases hcode : code = 4001
    · simp [hcode]
    · simp [hcode]
  unfold closed at h
  split at h
  · rename_i hphase
    cases h
    have hroom := hinv.room (by rw [hphase]; decide)
    split
    · rename_i hregular
      refine ⟨hinv.same (by rw [hphase]; decide) rfl, hcount _ ?_ (by rw [hphase]; decide)⟩
      rw [if_neg (by omega)]
      rfl
    · exact ⟨handleClose_inv code answer hroom, hcount _ (handleClose_evictions code answer s) (by rw [hphase]; decide)⟩
  · rename_i hphase
    cases h
    refine ⟨hinv.same (by rw [hphase]; decide) rfl, ?_⟩
    unfold hears
    rw [hphase]
    simp [disconnected]
  · rename_i hphase
    cases h
    have hroom := hinv.room (by rw [hphase]; decide)
    exact ⟨handleClose_inv code answer hroom, hcount _ (handleClose_evictions code answer s) (by rw [hphase]; decide)⟩
  · cases h

theorem not_ended_of_connected {s : St} (h : connected s = true) : s.phase ≠ .ended := by
  intro hended
  rw [connected, hended] at h
  cases h

/-- An eviction that is heard adds to the count, a handshake clears it, and no other step
    changes it. -/
theorem step_inv {s s' : St} {e : Event} (hinv : Inv s) (h : step s e = some s') :
    Inv s' ∧ (e ≠ .registered → s'.consecutiveEvictions = s.consecutiveEvictions + (hears 4001 s e).toNat) := by
  have same : s.phase ≠ .ended → s'.consecutiveEvictions = s.consecutiveEvictions → hears 4001 s e = false →
      Inv s' ∧ (e ≠ .registered → s'.consecutiveEvictions = s.consecutiveEvictions + (hears 4001 s e).toNat) := by
    intro hphase hcount hhears
    refine ⟨hinv.same hphase hcount, fun _ => ?_⟩
    rw [hhears]
    exact hcount
  cases e with
  | closed code answer =>
    obtain ⟨hinv', hcount⟩ := closed_inv hinv h
    exact ⟨hinv', fun _ => hcount⟩
  | connect hs =>
    obtain ⟨⟨hphase, -⟩, h⟩ := Option.ite_none_right_eq_some.mp h
    cases h
    exact same (by rw [hphase]; decide) (connect_evictions hs s) rfl
  | registerSent =>
    obtain ⟨hphase, h⟩ := Option.ite_none_right_eq_some.mp h
    cases h
    exact same (by rw [hphase]; decide) rfl rfl
  | registered =>
    obtain ⟨hphase, h⟩ := Option.ite_none_right_eq_some.mp h
    cases h
    refine ⟨⟨Nat.zero_le _, ?_⟩, fun hne => absurd rfl hne⟩
    intro _
    show 0 < maxConsecutiveEvictions
    decide
  | failed =>
    obtain ⟨hphase, h⟩ := Option.ite_none_right_eq_some.mp h
    cases h
    exact same (not_ended_of_connected hphase) rfl rfl
  | silent =>
    obtain ⟨hphase, h⟩ := Option.ite_none_right_eq_some.mp h
    cases h
    exact same (by rw [hphase]; decide) rfl rfl
  | left =>
    obtain ⟨⟨hphase, -⟩, h⟩ := Option.ite_none_right_eq_some.mp h
    cases h
    exact same (by rcases hphase with hphase | hphase <;> rw [hphase] <;> decide) rfl rfl
  | stop =>
    obtain ⟨hphase, h⟩ := Option.ite_none_left_eq_some.mp h
    cases h
    exact same hphase rfl rfl
  | cancel =>
    obtain ⟨hphase, h⟩ := Option.ite_none_left_eq_some.mp h
    cases h
    exact same hphase rfl rfl
  | credential c =>
    cases h
    exact ⟨⟨hinv.bounded, hinv.room⟩, fun _ => rfl⟩

theorem reach_inv {s : St} (h : machine.Reach s) : Inv s := by
  have hstart : ∀ s, machine.init s → Inv s := by
    intro s hs
    obtain ⟨credential, rfl⟩ := hs
    exact start_inv credential
  have hstep : ∀ s e s', Inv s → machine.step s e = some s' → Inv s' := fun _ _ _ hinv hst => (step_inv hinv hst).1
  exact Machine.Reach.inv hstart hstep h

/-- Without a handshake, the count is what it was and what was heard since. -/
theorem run_counts {s t : St} {es : List Event} (hinv : Inv s) (h : machine.exec s es = some t)
    (hno : ∀ e ∈ es, e ≠ .registered) :
    Inv t ∧ t.consecutiveEvictions = s.consecutiveEvictions + (machine.trace s es).countP fun p => hears 4001 p.1 p.2 := by
  induction es generalizing s with
  | nil =>
    cases h
    exact ⟨hinv, rfl⟩
  | cons e es ih =>
    obtain ⟨u, hu, h⟩ := Option.bind_eq_some_iff.mp h
    obtain ⟨hinvu, hcount⟩ := step_inv hinv hu
    obtain ⟨hinvt, hrest⟩ := ih hinvu h fun f hf => hno f (List.mem_cons_of_mem _ hf)
    have hone := hcount (hno e (List.mem_cons_self ..))
    rw [Machine.trace_cons machine hu, List.countP_cons]
    refine ⟨hinvt, ?_⟩
    cases hhears : hears 4001 s e with
    | true =>
      rw [hhears, Bool.toNat_true] at hone
      rw [if_pos rfl]
      omega
    | false =>
      rw [hhears, Bool.toNat_false] at hone
      rw [if_neg (by simp)]
      omega

/-! ## Runs -/

/-- Every close that is heard is obeyed, for good, and what is heard of evictions between
    two handshakes is bounded, its last one stopping the client. -/
theorem closes_obeyed (credential : Option Credential) (es : List Event) :
    (∀ p ∈ machine.trace (start credential) es, ∀ s', machine.step p.1 p.2 = some s' → Obeys p.1 p.2 s') ∧
      (∀ p ∈ machine.trace (start credential) es, p.1.phase = .ended →
        ∀ s', machine.step p.1 p.2 = some s' → s'.phase = .ended) ∧
      ∀ before since s t, es = before ++ since → machine.exec (start credential) before = some s →
        machine.exec s since = some t → (∀ e ∈ since, e ≠ .registered) →
          ((machine.trace s since).countP fun p => hears 4001 p.1 p.2) ≤ maxConsecutiveEvictions ∧
            (((machine.trace s since).countP fun p => hears 4001 p.1 p.2) = maxConsecutiveEvictions → t.phase = .ended) := by
  refine ⟨fun _ _ _ hst => step_obeys hst, fun _ _ hended _ hst => ended_stays hended hst, ?_⟩
  intro before since s t _ hs ht hno
  have hreach : machine.Reach s := (Machine.Reach.init ⟨credential, rfl⟩ : machine.Reach (start credential)).exec hs
  obtain ⟨hinv, hcount⟩ := run_counts (reach_inv hreach) ht hno
  have hbounded := hinv.bounded
  refine ⟨by omega, ?_⟩
  intro hmax
  by_cases hphase : t.phase = .ended
  · exact hphase
  · have hroom := hinv.room hphase
    omega

/-- A connection whose handshake is completed before it is evicted. -/
def evicted : List Event := [.connect .accepted, .registerSent, .registered, .closed 4001 true]

def connectedCredential : Option Credential := some ⟨"connected", true⟩

/-- The client after such a connection. -/
def afterEviction : St := ⟨.idle, true, 1, connectedCredential, []⟩

/-- Any number of them, and the client still goes on. -/
theorem evictions_unbounded (n : Nat) :
    machine.exec (start connectedCredential) (evicted ++ (List.replicate n evicted).flatten) = some afterEviction := by
  have hloop : machine.exec afterEviction (List.replicate n evicted).flatten = some afterEviction := by
    induction n with
    | zero => rfl
    | succ n ih =>
      have hone : machine.exec afterEviction evicted = some afterEviction := rfl
      rw [List.replicate_succ, List.flatten_cons, Machine.exec_append, hone]
      exact ih
  have hfirst : machine.exec (start connectedCredential) evicted = some afterEviction := rfl
  rw [Machine.exec_append, hfirst]
  exact hloop

/-- Six evictions in a row are followed by a reconnect each. -/
theorem six_evictions :
    machine.exec (start connectedCredential)
        (evicted ++ evicted ++ evicted ++ evicted ++ evicted ++ evicted ++ [.connect .accepted]) =
      some ⟨.sending, true, 1, connectedCredential, []⟩ := rfl

end Errand.Server.CloudConnection

import Mathlib.Data.List.Count
import Errand.Lib.Machine

/-
  Errand.Server.RelayedWebhooks — the webhooks of one cloud client's lifetime
  (`_handle_message` and `_connect_and_receive` of `cloud_client.py`).

  The receive loop handles a frame at a time. A webhook whose id has been processed on this
  connection is acknowledged and no more; any other is dispatched, whatever comes of it, its
  id is recorded (unless it is empty) and then acknowledged. A new connection forgets the
  ids. The cloud delivers again what it has not seen acknowledged, and an
  acknowledgement may be lost with its connection.

  Proved, of every run:
  - `relayed`: no id is dispatched twice on one connection, an acknowledgement is sent only
    after its id was dispatched, and every delivery is answered with one, in order.
  - `a_redelivery_is_dispatched`: the acknowledgement is lost with its connection, and the
    next connection dispatches the message again.
-/

namespace Errand.Server.RelayedWebhooks

open Errand.Lib

inductive Phase where
  | disconnected
  | receiving
  | dispatching (msgId : String)
  | ended
  deriving DecidableEq, Repr

structure St where
  phase : Phase
  processedIds : List String
  /-- The ids passed to `dispatch_cloud_webhook` on each connection, the latest one first. -/
  sessions : List (List String)
  /-- The ids of the frames handled. -/
  delivered : List String
  acks : List String
  /-- The acks that may still arrive. -/
  inFlight : List String
  /-- The ids the cloud has seen acknowledged. -/
  seen : List String
  deriving DecidableEq, Repr

inductive Event where
  | connect
  | webhook (msgId : String)
  | dispatchReturned (raised : Bool)
  | closed
  | ackArrived (msgId : String)
  | cancel
  deriving DecidableEq, Repr

/-! ## The client -/

def sendAck (msgId : String) (s : St) : St :=
  { s with acks := s.acks ++ [msgId], inFlight := s.inFlight ++ [msgId] }

/-- A call of `dispatch_cloud_webhook`, on the connection that is open. -/
def dispatchCloudWebhook (msgId : String) : List (List String) → List (List String)
  | here :: earlier => (here ++ [msgId]) :: earlier
  | [] => []

def handleWebhook (msgId : String) (s : St) : St :=
  let s := { s with delivered := s.delivered ++ [msgId] }
  if s.processedIds.contains msgId then sendAck msgId s
  else { s with phase := .dispatching msgId, sessions := dispatchCloudWebhook msgId s.sessions }

/-- The rest of the handler: an exception of the dispatch has been logged. -/
def dispatched (msgId : String) (s : St) : St :=
  sendAck msgId
    { s with
      phase := .receiving
      processedIds := if msgId ≠ "" then s.processedIds ++ [msgId] else s.processedIds }

def step (s : St) : Event → Option St
  | .connect =>
    if s.phase = .disconnected then
      some { s with phase := .receiving, processedIds := [], sessions := [] :: s.sessions }
    else none
  | .webhook msgId =>
    if s.phase = .receiving ∧ s.seen.contains msgId = false then some (handleWebhook msgId s) else none
  | .dispatchReturned _ =>
    match s.phase with
    | .dispatching msgId => some (dispatched msgId s)
    | _ => none
  | .closed => if s.phase = .receiving then some { s with phase := .disconnected, inFlight := [] } else none
  | .ackArrived msgId => if s.inFlight.contains msgId then some { s with seen := s.seen ++ [msgId] } else none
  | .cancel => if s.phase = .ended then none else some { s with phase := .ended }

def start : St := ⟨.disconnected, [], [], [], [], [], []⟩

def machine : Machine St Event where
  init s := s = start
  step := step

/-- The frame the handler is busy with. -/
def Phase.current : Phase → List String
  | .dispatching msgId => [msgId]
  | _ => []

structure Relayed (s : St) : Prop where
  once : ∀ session ∈ s.sessions, ∀ msgId ≠ "", session.count msgId ≤ 1
  attempted : ∀ msgId ∈ s.acks, ∃ session ∈ s.sessions, msgId ∈ session
  /-- Each delivery is answered before the next, but for one that is being dispatched or
      was when the client was cancelled. -/
  answered : s.delivered = s.acks ++ s.phase.current ∨ s.phase = .ended ∧ ∃ msgId, s.delivered = s.acks ++ [msgId]

/-! ## What a connection has processed -/

/-- On an open connection, what was dispatched is recorded, but for the frame at hand. -/
structure Inv (s : St) : Prop where
  relayed : Relayed s
  opened : s.phase = .receiving ∨ (∃ msgId, s.phase = .dispatching msgId) →
    ∃ here earlier, s.sessions = here :: earlier ∧
      (∀ msgId ∈ s.processedIds, msgId ∈ here) ∧
      (∀ msgId ∈ s.phase.current, msgId ∈ here) ∧
      ∀ msgId ∈ here, msgId ≠ "" → msgId ∈ s.processedIds ++ s.phase.current

theorem start_inv : Inv start := by
  refine ⟨⟨?_, ?_, .inl rfl⟩, ?_⟩
  · intro session hmem
    cases hmem
  · intro msgId hmem
    cases hmem
  · intro hopen
    rcases hopen with h | ⟨_, h⟩ <;> cases h

theorem sendAck_attempted {s : St} {msgId : String} {here : List String} {earlier : List (List String)}
    (h : ∀ msgId ∈ s.acks, ∃ session ∈ s.sessions, msgId ∈ session) (hsessions : s.sessions = here :: earlier)
    (hhere : msgId ∈ here) : ∀ i ∈ (sendAck msgId s).acks, ∃ session ∈ s.sessions, i ∈ session := by
  intro i hi
  rcases List.mem_append.mp hi with hi | hi
  · exact h i hi
  · rw [List.mem_singleton.mp hi, hsessions]
    exact ⟨here, List.mem_cons_self .., hhere⟩

theorem Inv.answered_open {s : St} (hinv : Inv s) (h : s.phase ≠ .ended) : s.delivered = s.acks ++ s.phase.current :=
  hinv.relayed.answered.resolve_right fun hended => h hended.1

theorem webhook_inv {s : St} {msgId : String} (hinv : Inv s) (hphase : s.phase = .receiving) : Inv (handleWebhook msgId s) := by
  obtain ⟨here, earlier, hsessions, hprocessed, -, hrecorded⟩ := hinv.opened (.inl hphase)
  have hanswered := hinv.answered_open (by rw [hphase]; nofun)
  rw [hphase] at hanswered hrecorded
  change s.delivered = s.acks ++ [] at hanswered
  unfold handleWebhook
  dsimp only
  split
  · rename_i hdone
    have hdone : msgId ∈ s.processedIds := by simpa using hdone
    refine ⟨⟨hinv.relayed.once, ?_, ?_⟩, ?_⟩
    · exact sendAck_attempted hinv.relayed.attempted hsessions (hprocessed msgId hdone)
    · left
      show s.delivered ++ [msgId] = s.acks ++ [msgId] ++ s.phase.current
      rw [hanswered, hphase]
      simp [Phase.current]
    · intro _
      refine ⟨here, earlier, hsessions, hprocessed, ?_, ?_⟩
      · intro i hi
        change i ∈ s.phase.current at hi
        rw [hphase] at hi
        cases hi
      · show ∀ i ∈ here, i ≠ "" → i ∈ s.processedIds ++ s.phase.current
        rw [hphase]
        exact hrecorded
  · rename_i hnew
    have hnew : msgId ∉ s.processedIds := by simpa using hnew
    have habsent : msgId ≠ "" → msgId ∉ here := by
      intro hne hmem
      rcases List.mem_append.mp (hrecorded msgId hmem hne) with h | h
      · exact hnew h
      · cases h
    refine ⟨⟨?_, ?_, ?_⟩, ?_⟩
    · intro session hmem i hi
      rw [hsessions] at hmem
      rcases List.mem_cons.mp hmem with rfl | hmem
      · rw [List.count_append]
        by_cases heq : i = msgId
        · subst heq
          rw [List.count_eq_zero_of_not_mem (habsent hi)]
          simp
        · have hold := hinv.relayed.once here (hsessions ▸ List.mem_cons_self ..) i hi
          rw [List.count_eq_zero_of_not_mem (a := i) (l := [msgId]) (by simpa using heq)]
          omega
      · exact hinv.relayed.once session (hsessions ▸ List.mem_cons_of_mem _ hmem) i hi
    · intro i hi
      obtain ⟨session, hmem, hsession⟩ := hinv.relayed.attempted i hi
      show ∃ session ∈ dispatchCloudWebhook msgId s.sessions, i ∈ session
      rw [hsessions] at hmem ⊢
      rcases List.mem_cons.mp hmem with rfl | hmem
      · exact ⟨_, List.mem_cons_self .., List.mem_append_left _ hsession⟩
      · exact ⟨session, List.mem_cons_of_mem _ hmem, hsession⟩
    · left
      show s.delivered ++ [msgId] = s.acks ++ [msgId]
      rw [hanswered, List.append_nil]
    · intro _
      refine ⟨here ++ [msgId], earlier, ?_, ?_, ?_, ?_⟩
      · show dispatchCloudWebhook msgId s.sessions = _
        rw [hsessions]
        rfl
      · intro i hi
        exact List.mem_append_left _ (hprocessed i hi)
      · intro i hi
        exact List.mem_append_right _ hi
      · intro i hi hne
        show i ∈ s.processedIds ++ [msgId]
        rcases List.mem_append.mp hi with hi | hi
        · rcases List.mem_append.mp (hrecorded i hi hne) with h | h
          · exact List.mem_append_left _ h
          · cases h
        · exact List.mem_append_right _ hi

theorem dispatched_inv {s : St} {msgId : String} (hinv : Inv s) (hphase : s.phase = .dispatching msgId) :
    Inv (dispatched msgId s) := by
  obtain ⟨here, earlier, hsessions, hprocessed, hcurrent, hrecorded⟩ := hinv.opened (.inr ⟨msgId, hphase⟩)
  have hanswered := hinv.answered_open (by rw [hphase]; nofun)
  rw [hphase] at hanswered hrecorded hcurrent
  change s.delivered = s.acks ++ [msgId] at hanswered
  refine ⟨⟨hinv.relayed.once, ?_, ?_⟩, ?_⟩
  · exact sendAck_attempted hinv.relayed.attempted hsessions (hcurrent msgId (List.mem_singleton_self _))
  · left
    show s.delivered = s.acks ++ [msgId] ++ []
    rw [hanswered, List.append_nil]
  · intro _
    refine ⟨here, earlier, hsessions, ?_, ?_, ?_⟩
    · intro i hi
      change i ∈ (if msgId ≠ "" then s.processedIds ++ [msgId] else s.processedIds) at hi
      split at hi
      · rcases List.mem_append.mp hi with hi | hi
        · exact hprocessed i hi
        · rw [List.mem_singleton.mp hi]
          exact hcurrent msgId (List.mem_singleton_self _)
      · exact hprocessed i hi
    · intro i hi
      cases hi
    · intro i hi hne
      show i ∈ (if msgId ≠ "" then s.processedIds ++ [msgId] else s.processedIds) ++ []
      rw [List.append_nil]
      split
      · exact hrecorded i hi hne
      · rename_i hempty
        rcases List.mem_append.mp (hrecorded i hi hne) with h | h
        · exact h
        · exact absurd (List.mem_singleton.mp h ▸ hne) hempty

theorem step_inv {s s' : St} {e : Event} (hinv : Inv s) (h : step s e = some s') : Inv s' := by
  cases e with
  | connect =>
    obtain ⟨hphase, h⟩ := Option.ite_none_right_eq_some.mp h
    cases h
    have hanswered := hinv.answered_open (by rw [hphase]; nofun)
    rw [hphase] at hanswered
    refine ⟨⟨?_, ?_, .inl hanswered⟩, ?_⟩
    · intro session hmem i hi
      rcases List.mem_cons.mp hmem with rfl | hmem
      · exact Nat.zero_le _
      · exact hinv.relayed.once session hmem i hi
    · intro i hi
      obtain ⟨session, hmem, hsession⟩ := hinv.relayed.attempted i hi
      exact ⟨session, List.mem_cons_of_mem _ hmem, hsession⟩
    · intro _
      refine ⟨[], s.sessions, rfl, ?_, ?_, ?_⟩ <;> (intro i hi; cases hi)
  | webhook msgId =>
    obtain ⟨⟨hphase, -⟩, h⟩ := Option.ite_none_right_eq_some.mp h
    cases h
    exact webhook_inv hinv hphase
  | dispatchReturned raised =>
    cases hphase : s.phase with
    | dispatching msgId =>
      simp only [step, hphase] at h
      cases h
      exact dispatched_inv hinv hphase
    | _ => simp [step, hphase] at h
  | closed =>
    obtain ⟨hphase, h⟩ := Option.ite_none_right_eq_some.mp h
    cases h
    have hanswered := hinv.answered_open (by rw [hphase]; nofun)
    rw [hphase] at hanswered
    refine ⟨⟨hinv.relayed.once, hinv.relayed.attempted, .inl hanswered⟩, ?_⟩
    intro hopen
    rcases hopen with h | ⟨_, h⟩ <;> cases h
  | ackArrived msgId =>
    obtain ⟨-, h⟩ := Option.ite_none_right_eq_some.mp h
    cases h
    exact ⟨⟨hinv.relayed.once, hinv.relayed.attempted, hinv.relayed.answered⟩, hinv.opened⟩
  | cancel =>
    obtain ⟨hphase, h⟩ := Option.ite_none_left_eq_some.mp h
    cases h
    refine ⟨⟨hinv.relayed.once, hinv.relayed.attempted, ?_⟩, ?_⟩
    · have hanswered := hinv.answered_open hphase
      cases hcurrent : s.phase with
      | dispatching msgId =>
        rw [hcurrent] at hanswered
        exact .inr ⟨rfl, msgId, hanswered⟩
      | _ =>
        rw [hcurrent] at hanswered
        exact .inl hanswered
    · intro hopen
      rcases hopen with h | ⟨_, h⟩ <;> cases h

theorem relayed {es : List Event} {s : St} (h : machine.exec start es = some s) : Relayed s := by
  have hstep : ∀ s e s', Inv s → True → machine.step s e = some s' → Inv s' := fun _ _ _ hinv _ hst => step_inv hinv hst
  exact (Machine.exec_inv hstep start_inv (fun _ _ => trivial) h).relayed

/-- A message whose acknowledgement is lost, and its redelivery on the same connection. -/
theorem a_redelivery_is_acked :
    ∃ s, machine.exec start [.connect, .webhook "m1", .dispatchReturned false, .webhook "m1"] = some s ∧
      s.acks = ["m1", "m1"] ∧ Relayed s :=
  ⟨_, rfl, rfl, @relayed [.connect, .webhook "m1", .dispatchReturned false, .webhook "m1"] _ rfl⟩

/-- On the next connection the same message is dispatched again. -/
theorem a_redelivery_is_dispatched :
    ∃ s, machine.exec start
        [.connect, .webhook "m1", .dispatchReturned false, .closed, .connect, .webhook "m1"] = some s ∧
      s.sessions.flatten.count "m1" = 2 :=
  ⟨_, rfl, by decide⟩

end Errand.Server.RelayedWebhooks

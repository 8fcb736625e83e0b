import Errand.Frontend.TaskList
import Errand.Lib.Machine
import Errand.Lib.Slots

/-
  Errand.Frontend.Board — the store of the board (`stores/tasks.ts`): its fetches of the
  list, its stream of events and the polling where there is none.

  What the server tells is published later, in any order, or never. The stream of the board
  is requested, subscribed, and ended by the server or lost; it brings what is published
  while it is subscribed. A fetch is asked for, served and received, each at any time, or
  fails. `commits` numbers the steps of the server.

  Proved:
  - `settles_as_listed`: with the stream up, nothing on its way and no fetch under way, the
    board shows what is listed, if each change on a subscribed stream was told of, fitting
    and in order, and the stream came up, and responses came in, only where nothing was
    lacking or a fetch was still to make up for it.
  - `a_change_before_the_subscription_is_missed`: a task made between the fetch and the
    subscription stays off the board.
-/

namespace Errand.Frontend.Board

open Errand.Lib Errand.Lib.Replica Errand.Server.Tasks Errand.Frontend.TaskList
open Errand.Server.SlackUpdates (Fields Texts)

variable {F : Type}

/-! ## The state -/

inductive Fetch (F : Type) where
  | asked
  | served (copy : Copy F)
  deriving DecidableEq, Repr

def Fetch.onCopy (f : Copy F → Copy F) : Fetch F → Fetch F
  | .asked => .asked
  | .served copy => .served (f copy)

/-- A fetch that makes up for what the list held lacks. -/
def Fetch.current : Fetch F → Bool
  | .asked => true
  | .served copy => !copy.lacks

/-- The server's side of a stream, with what is on its way. -/
inductive Link (F : Type) where
  | requested
  | subscribed (queue : List (Nat × Msg F))
  | ended (queue : List (Nat × Msg F))
  deriving DecidableEq, Repr

structure Stream (F : Type) where
  link : Link F
  opened : Bool
  deriving DecidableEq, Repr

inductive EventStreamStatus where
  | connecting
  | connected
  | disconnected
  deriving DecidableEq, Repr

structure State (F : Type) where
  backend : Backend
  commits : Nat
  /-- Told of by the server and not published yet. -/
  outbox : List (Nat × Msg F)
  held : Copy F
  fetches : List (Fetch F)
  eventSource : Option (Stream F)
  sseStatus : EventStreamStatus
  /-- `pollTimer` is set. -/
  polling : Bool
  /-- `reconnectTimer` is set. -/
  reconnecting : Bool
  backoff : Nat

namespace State

def link (s : State F) : Option (Link F) := s.eventSource.map (·.link)

def live (s : State F) : Bool :=
  match s.link with
  | some (.subscribed _) => true
  | _ => false

/-- What is on its way on a stream that is subscribed. -/
def queue (s : State F) : List (Nat × Msg F) :=
  match s.link with
  | some (.subscribed queue) => queue
  | _ => []

def undelivered (s : State F) : List (Nat × Msg F) := s.queue ++ s.outbox

/-- What is on its way on a stream the server has ended. -/
def leftover (s : State F) : List (Nat × Msg F) :=
  match s.link with
  | some (.ended queue) => queue
  | _ => []

def onCopies (f : Copy F → Copy F) (s : State F) : State F :=
  { s with held := f s.held, fetches := s.fetches.map (Fetch.onCopy f) }

/-! ## The store -/

def load (s : State F) : State F := { s with fetches := s.fetches ++ [.asked] }

def startPolling (s : State F) : State F := if s.polling then s else { s.load with polling := true }

def stopPolling (s : State F) : State F := { s with polling := false }

/-- A change of `sseStatus`, with the watcher of it. -/
def setStatus (status : EventStreamStatus) (s : State F) : State F :=
  if s.sseStatus = status then s
  else
    match status with
    | .connected => stopPolling { s with sseStatus := status }
    | .disconnected => startPolling { s with sseStatus := status }
    | .connecting => { s with sseStatus := status }

def sseConnect (hasToken : Bool) (s : State F) : State F :=
  if hasToken then { s.setStatus .connecting with eventSource := some ⟨.requested, false⟩ }
  else s.setStatus .disconnected

/-- What the stream that is given up would have brought is lost. -/
def closeStream (s : State F) : State F := { s.onCopies (Copy.miss s.queue) with eventSource := none }

end State

def initialBackoff : Nat := 1000

def maxBackoff : Nat := 30000

inductive Event (F : Type) where
  | commit (backend : Backend) (msg : Option (Msg F))
  | publish (i : Nat)
  | giveUp (i : Nat)
  | start (hasToken : Bool)
  | stop
  | tick
  /-- A task has been added or updated. -/
  | edited
  | removed (id : Nat)
  | serve (i : Nat)
  | receive (i : Nat)
  | fail (i : Nat)
  | reconnect (hasToken : Bool)
  | subscribe
  | opened
  | deliver
  | cut
  | lose

section Steps

variable [DecidableEq F] (texts : Texts) (read : Fields → F)

def commit (s : State F) (backend : Backend) (msg : Option (Msg F)) : State F :=
  let s' := if untold texts read s.backend backend msg = [] then s else s.onCopies Copy.outdate
  { s' with backend := backend, commits := s.commits + 1, outbox := s.outbox ++ sent s.commits msg }

def publish (s : State F) (i : Nat) (p : Nat × Msg F) : State F :=
  match s.eventSource with
  | some ⟨.subscribed queue, opened⟩ =>
    { s with outbox := s.outbox.eraseIdx i, eventSource := some ⟨.subscribed (queue ++ [p]), opened⟩ }
  | _ => { s.onCopies (Copy.miss [p]) with outbox := s.outbox.eraseIdx i }

def deliver (s : State F) : Option (State F) :=
  match s.eventSource with
  | some ⟨.subscribed ((n, m) :: queue), opened⟩ =>
    some
      { s with
        held := ⟨handleSseEvent s.held.tasks m, min s.held.pos n, s.held.lacks⟩
        fetches := s.fetches.map (Fetch.onCopy (Copy.miss [(n, m)]))
        eventSource := some ⟨.subscribed queue, opened⟩ }
  | some ⟨.ended ((_, m) :: queue), opened⟩ =>
    some
      { s with
        held := ⟨handleSseEvent s.held.tasks m, s.held.pos, true⟩, eventSource := some ⟨.ended queue, opened⟩ }
  | _ => none

def step (s : State F) : Event F → Option (State F)
  | .commit backend msg =>
    -- ids are not used again, and what is told of is a row
    if s.backend.db.nextId ≤ backend.db.nextId ∧ ∀ m ∈ msg, m.id < backend.db.nextId then
      some (commit texts read s backend msg)
    else none
  | .publish i => s.outbox[i]?.map (publish s i)
  | .giveUp i => s.outbox[i]?.map fun p => { s.onCopies (Copy.miss [p]) with outbox := s.outbox.eraseIdx i }
  | .start hasToken =>
    if s.eventSource.isNone ∧ s.reconnecting = false then some (s.load.sseConnect hasToken) else none
  | .stop => some (({ s.closeStream with reconnecting := false }).stopPolling.setStatus .disconnected)
  | .tick => if s.polling then some s.load else none
  | .edited => some s.load
  | .removed id => some { s with held := { s.held with tasks := s.held.tasks.filter fun t => t.id ≠ id } }
  | .serve i =>
    match s.fetches[i]? with
    | some .asked =>
      some { s with fetches := s.fetches.set i (.served ⟨getTasks texts read s.backend, s.commits, false⟩) }
    | _ => none
  | .receive i =>
    match s.fetches[i]? with
    | some (.served copy) => some { s with held := copy, fetches := s.fetches.eraseIdx i }
    | _ => none
  | .fail i => if i < s.fetches.length then some { s with fetches := s.fetches.eraseIdx i } else none
  | .reconnect hasToken =>
    if s.reconnecting then
      some (({ s with reconnecting := false, backoff := min (s.backoff * 2) maxBackoff }).sseConnect hasToken)
    else none
  | .subscribe =>
    match s.eventSource with
    | some ⟨.requested, opened⟩ => some { s with eventSource := some ⟨.subscribed [], opened⟩ }
    | _ => none
  | .opened =>
    s.eventSource.map fun stream =>
      ({ s.setStatus .connected with
        eventSource := some { stream with opened := true }, backoff := initialBackoff }).stopPolling
  | .deliver => deliver s
  | .cut =>
    match s.eventSource with
    | some ⟨.subscribed queue, opened⟩ =>
      some { s.onCopies (Copy.miss queue) with eventSource := some ⟨.ended queue, opened⟩ }
    | _ => none
  | .lose =>
    match s.eventSource with
    | some _ => some { (s.closeStream.setStatus .disconnected).startPolling with reconnecting := true }
    | none => none

def machine : Machine (State F) (Event F) where
  init s :=
    s.commits = 0 ∧ s.outbox = [] ∧ s.held = ⟨[], 0, true⟩ ∧ s.fetches = [] ∧ s.eventSource = none ∧
      s.sseStatus = .disconnected ∧ s.polling = false ∧ s.reconnecting = false ∧ s.backoff = initialBackoff
  step := step texts read

/-! ## What the board is to show, and when it does -/

/-- The stream is up, and nothing is on its way. -/
def Settled (s : State F) : Prop :=
  s.eventSource = some ⟨.subscribed [], true⟩ ∧ s.outbox = [] ∧ s.fetches = []

/-- The columns hold what the list of the server does. -/
def Shows (s : State F) : Prop := (s.held.tasks.filter displayed).Perm (getTasks texts read s.backend)

/-- The list held lacks nothing, or a fetch is still to make up for it. -/
def Covered (s : State F) : Prop := s.held.lacks = false ∨ ∃ f ∈ s.fetches, f.current = true

/-- Without the message the list held lacks nothing, or a fetch is still to make up for it. -/
def CoveredWithout (s : State F) (p : Nat × Msg F) : Prop :=
  (s.held.miss [p]).lacks = false ∨ ∃ f ∈ s.fetches, (f.onCopy (Copy.miss [p])).current = true

def Orderly (s : State F) : Event F → Prop
  | .commit backend msg =>
    (∀ m ∈ msg, Fits displayed (s.backend.db.nextId ≤ m.id) (view texts read s.backend m.id)
      (view texts read backend m.id) m.news) ∧
    (∀ id ∈ untold texts read s.backend backend msg, about id s.undelivered = []) ∧
    (untold texts read s.backend backend msg ≠ [] → s.live = true → .asked ∈ s.fetches)
  | .publish i => ∀ p, s.outbox[i]? = some p → ∀ q ∈ s.outbox.take i, q.2.id ≠ p.2.id
  | .giveUp i =>
    ∀ p, s.outbox[i]? = some p →
      (∀ q ∈ s.queue ++ s.outbox.take i, q.2.id ≠ p.2.id) ∧ (s.live = true → CoveredWithout s p)
  | .removed id => view texts read s.backend id = none
  | .receive i =>
    s.live = true → ∀ copy, s.fetches[i]? = some (.served copy) →
      copy.lacks = false ∨ ∃ f ∈ s.fetches.eraseIdx i, f.current = true
  | .fail i => s.live = true → s.held.lacks = false ∨ ∃ f ∈ s.fetches.eraseIdx i, f.current = true
  | .subscribe => Covered s
  | .deliver =>
    ∀ p ∈ s.queue.head?, s.held.lacks = false ∨ ∃ f ∈ s.fetches, (f.onCopy (Copy.miss [p])).current = true
  | _ => True

end Steps

/-! ## The invariant -/

section Runs

variable (texts : Texts) (read : Fields → F)

structure Inv (s : State F) : Prop where
  coming : Coming texts read s.backend s.commits s.undelivered
  held : Sound texts read s.backend s.commits s.undelivered s.held
  served : ∀ copy, .served copy ∈ s.fetches → Sound texts read s.backend s.commits s.undelivered copy
  stray : ∀ p ∈ s.leftover, p.2.id < s.backend.db.nextId
  covered : s.live = true → Covered s
  idle : s.reconnecting = true → s.link = none

/-- Nothing but fetches, timers and the status have changed. -/
structure Grows (s s' : State F) : Prop where
  backend : s'.backend = s.backend
  commits : s'.commits = s.commits
  outbox : s'.outbox = s.outbox
  held : s'.held = s.held
  link : s'.link = s.link
  fetches : ∃ n, s'.fetches = s.fetches ++ List.replicate n .asked
  reconnecting : s'.reconnecting = true → s.reconnecting = true

variable {texts read} {s s' s'' : State F}

theorem Grows.refl (s : State F) : Grows s s :=
  ⟨rfl, rfl, rfl, rfl, rfl, ⟨0, (List.append_nil _).symm⟩, id⟩

theorem Grows.trans (h : Grows s s') (h' : Grows s' s'') : Grows s s'' where
  backend := h'.backend.trans h.backend
  commits := h'.commits.trans h.commits
  outbox := h'.outbox.trans h.outbox
  held := h'.held.trans h.held
  link := h'.link.trans h.link
  fetches := by
    obtain ⟨n, hn⟩ := h.fetches
    obtain ⟨k, hk⟩ := h'.fetches
    refine ⟨n + k, ?_⟩
    rw [hk, hn, List.append_assoc, List.replicate_append_replicate]
  reconnecting hr := h.reconnecting (h'.reconnecting hr)

theorem grows_load (s : State F) : Grows s s.load :=
  ⟨rfl, rfl, rfl, rfl, rfl, ⟨1, rfl⟩, id⟩

theorem grows_startPolling (s : State F) : Grows s s.startPolling := by
  unfold State.startPolling
  split
  · exact Grows.refl s
  · exact ⟨rfl, rfl, rfl, rfl, rfl, ⟨1, rfl⟩, id⟩

theorem grows_stopPolling (s : State F) : Grows s s.stopPolling :=
  ⟨rfl, rfl, rfl, rfl, rfl, ⟨0, (List.append_nil _).symm⟩, id⟩

theorem grows_status (s : State F) (status : EventStreamStatus) : Grows s { s with sseStatus := status } :=
  ⟨rfl, rfl, rfl, rfl, rfl, ⟨0, (List.append_nil _).symm⟩, id⟩

theorem grows_setStatus (s : State F) (status : EventStreamStatus) : Grows s (s.setStatus status) := by
  unfold State.setStatus
  split
  · exact Grows.refl s
  · cases status with
    | connected => exact (grows_status s .connected).trans (grows_stopPolling _)
    | disconnected => exact (grows_status s .disconnected).trans (grows_startPolling _)
    | connecting => exact grows_status s .connecting

theorem Grows.queue (h : Grows s s') : s'.queue = s.queue := by
  unfold State.queue
  rw [h.link]

theorem Grows.undelivered (h : Grows s s') : s'.undelivered = s.undelivered := by
  unfold State.undelivered
  rw [h.queue, h.outbox]

theorem Grows.covered (h : Grows s s') (hcovered : Covered s) : Covered s' := by
  unfold Covered
  rw [h.held]
  rcases hcovered with hheld | ⟨f, hmem, hcurrent⟩
  · exact .inl hheld
  · obtain ⟨n, hn⟩ := h.fetches
    refine .inr ⟨f, ?_, hcurrent⟩
    rw [hn]
    exact List.mem_append_left _ hmem

theorem Inv.grows (h : Inv texts read s) (hg : Grows s s') : Inv texts read s' where
  coming := by
    rw [hg.backend, hg.commits, hg.undelivered]
    exact h.coming
  held := by
    rw [hg.backend, hg.commits, hg.undelivered, hg.held]
    exact h.held
  served copy hmem := by
    rw [hg.backend, hg.commits, hg.undelivered]
    obtain ⟨n, hn⟩ := hg.fetches
    rw [hn] at hmem
    rcases List.mem_append.mp hmem with hold | hnew
    · exact h.served copy hold
    · cases List.eq_of_mem_replicate hnew
  stray p hp := by
    rw [hg.backend]
    unfold State.leftover at hp
    rw [hg.link] at hp
    exact h.stray p hp
  covered hlive := by
    refine hg.covered (h.covered ?_)
    unfold State.live at hlive ⊢
    rw [hg.link] at hlive
    exact hlive
  idle hr := by
    rw [hg.link]
    exact h.idle (hg.reconnecting hr)

/-- No timer for a stream is set while there is one. -/
theorem Inv.busy (h : Inv texts read s) {link : Link F} (hlink : s.link = some link) (hr : s.reconnecting = true) :
    False := by
  rw [h.idle hr] at hlink
  cases hlink

/-- Messages are lost: the lists they are later than lack them. -/
theorem Inv.lost (h : Inv texts read s) (lost outbox : List (Nat × Msg F)) (stream : Option (Stream F))
    (hs' : s' = { s.onCopies (Copy.miss lost) with outbox := outbox, eventSource := stream })
    (hsplit : ∀ id, about id s.undelivered = about id lost ++ about id s'.undelivered)
    (hsub : ∀ p ∈ s'.undelivered, p ∈ s.undelivered)
    (hstray : ∀ p ∈ s'.leftover, p.2.id < s.backend.db.nextId)
    (hcovered : s'.live = true → Covered s') (hidle : s.reconnecting = true → s'.link = none) :
    Inv texts read s' where
  coming := by
    have hcoming := h.coming.drop _ hsplit hsub
    subst hs'
    exact hcoming
  held := by
    have hheld := h.held.drop hsplit
    subst hs'
    exact hheld
  served copy hmem := by
    have hdrop := fun c hc => (h.served c hc).drop hsplit
    subst hs'
    obtain ⟨f, hf, hcopy⟩ := List.mem_map.mp hmem
    cases f with
    | asked => cases hcopy
    | served c =>
      cases hcopy
      exact hdrop c hf
  stray := by
    subst hs'
    exact hstray
  covered := hcovered
  idle := by
    subst hs'
    exact hidle

theorem Inv.closeStream (h : Inv texts read s) : Inv texts read s.closeStream := by
  refine h.lost s.queue s.outbox none rfl ?_ ?_ ?_ ?_ ?_
  · intro id
    exact about_append id s.queue s.outbox
  · intro p hp
    exact List.mem_append_right _ hp
  · nofun
  · intro hlive
    cases hlive
  · exact fun _ => rfl

/-- Connecting, where there is no stream and no timer for one. -/
theorem Inv.sseConnect (h : Inv texts read s) (hlink : s.link = none) (hidle : s.reconnecting = false)
    (hasToken : Bool) : Inv texts read (s.sseConnect hasToken) := by
  unfold State.sseConnect
  cases hasToken with
  | false => exact h.grows (grows_setStatus s .disconnected)
  | true =>
    have hg := grows_setStatus s .connecting
    have hi := h.grows hg
    have hnone : (s.setStatus .connecting).link = none := hg.link.trans hlink
    have hsame : ({ s.setStatus .connecting with eventSource := some ⟨.requested, false⟩ } : State F).undelivered =
        (s.setStatus .connecting).undelivered := by
      show [] ++ _ = State.queue _ ++ _
      unfold State.queue
      rw [hnone]
    rw [if_pos rfl]
    refine ⟨hsame ▸ hi.coming, hsame ▸ hi.held, hsame ▸ hi.served, List.forall_mem_nil _, ?_, ?_⟩
    · intro hlive
      cases hlive
    · intro hr
      rw [hg.reconnecting hr] at hidle
      cases hidle

theorem Inv.timer (h : Inv texts read s) (hlink : s.link = none) : Inv texts read { s with reconnecting := true } :=
  ⟨h.coming, h.held, h.served, h.stray, h.covered, fun _ => hlink⟩

theorem link_of {stream : Stream F} (h : s.eventSource = some stream) : s.link = some stream.link := by
  unfold State.link
  rw [h]
  rfl

theorem queue_of {queue : List (Nat × Msg F)} (h : s.link = some (.subscribed queue)) : s.queue = queue := by
  unfold State.queue
  rw [h]

theorem live_of {queue : List (Nat × Msg F)} (h : s.link = some (.subscribed queue)) : s.live = true := by
  unfold State.live
  rw [h]

theorem undelivered_of {queue : List (Nat × Msg F)} (h : s.link = some (.subscribed queue)) :
    s.undelivered = queue ++ s.outbox := by
  unfold State.undelivered
  rw [queue_of h]

theorem queue_dead (h : ∀ queue, s.link ≠ some (.subscribed queue)) : s.queue = [] := by
  unfold State.queue
  split
  next queue hlink => exact absurd hlink (h queue)
  next => rfl

theorem live_dead (h : ∀ queue, s.link ≠ some (.subscribed queue)) : s.live = false := by
  unfold State.live
  split
  next queue hlink => exact absurd hlink (h queue)
  next => rfl

theorem undelivered_dead (h : ∀ queue, s.link ≠ some (.subscribed queue)) : s.undelivered = s.outbox := by
  unfold State.undelivered
  rw [queue_dead h]
  rfl

/-- A message of the outbox stands between those before and those after it. -/
theorem outbox_at {outbox : List (Nat × Msg F)} {i : Nat} {p : Nat × Msg F} (h : outbox[i]? = some p) :
    outbox = outbox.take i ++ p :: outbox.drop (i + 1) := by
  obtain ⟨hi, rfl⟩ := List.getElem?_eq_some_iff.mp h
  rw [← List.drop_eq_getElem_cons hi, List.take_append_drop]

theorem mem_of_erased {xs ys : List (Nat × Msg F)} {i : Nat} {p : Nat × Msg F} (h : p ∈ xs ++ ys.eraseIdx i) :
    p ∈ xs ++ ys := by
  rcases List.mem_append.mp h with hmem | hmem
  · exact List.mem_append_left _ hmem
  · exact List.mem_append_right _ (List.mem_of_mem_eraseIdx hmem)

theorem inv_publish (h : Inv texts read s) {i : Nat} {p : Nat × Msg F} (hp : s.outbox[i]? = some p)
    (hc : ∀ q ∈ s.outbox.take i, q.2.id ≠ p.2.id) : Inv texts read (publish s i p) := by
  have hout := outbox_at hp
  have hrest : s.outbox.eraseIdx i = s.outbox.take i ++ s.outbox.drop (i + 1) := List.eraseIdx_eq_take_drop_succ ..
  have htaken : ∀ id, about id s.outbox = about id [p] ++ about id (s.outbox.eraseIdx i) := by
    intro id
    rw [hrest, ← about_taken hc, ← hout]
  unfold publish
  split
  next queue opened hes =>
    -- it goes to the end of the queue
    have hlink : s.link = some (.subscribed queue) := link_of hes
    have hsame : ∀ id, about id s.undelivered = about id ((queue ++ [p]) ++ s.outbox.eraseIdx i) := by
      intro id
      rw [undelivered_of hlink, about_append, htaken, about_append, about_append, List.append_assoc]
    have hcoming : Coming texts read s.backend s.commits ((queue ++ [p]) ++ s.outbox.eraseIdx i) := by
      refine h.coming.drop [] hsame ?_
      intro q hq
      rw [undelivered_of hlink]
      rcases List.mem_append.mp hq with hq | hq
      · rcases List.mem_append.mp hq with hq | hq
        · exact List.mem_append_left _ hq
        · obtain rfl := List.mem_singleton.mp hq
          exact List.mem_append_right _ (List.mem_of_getElem? hp)
      · exact List.mem_append_right _ (List.mem_of_mem_eraseIdx hq)
    refine ⟨hcoming, h.held.reorder hsame, fun c hc => (h.served c hc).reorder hsame, List.forall_mem_nil _, ?_, ?_⟩
    · exact fun _ => h.covered (live_of hlink)
    · exact fun hr => (h.busy hlink hr).elim
  next hes =>
    -- nobody is there to hear it
    have hdead : ∀ queue, s.link ≠ some (.subscribed queue) := by
      intro queue hlink
      obtain ⟨⟨link, opened⟩, hsome, hl⟩ := Option.map_eq_some_iff.mp hlink
      cases hl
      exact hes queue opened hsome
    refine h.lost [p] (s.outbox.eraseIdx i) s.eventSource rfl ?_ ?_ ?_ ?_ ?_
    · intro id
      show about id (s.queue ++ s.outbox) = _ ++ about id (s.queue ++ s.outbox.eraseIdx i)
      rw [queue_dead hdead]
      exact htaken id
    · exact fun q hq => mem_of_erased hq
    · exact h.stray
    · intro hlive
      cases (live_dead hdead).symm.trans hlive
    · exact h.idle

theorem inv_giveUp (h : Inv texts read s) {i : Nat} {p : Nat × Msg F} (hp : s.outbox[i]? = some p)
    (hfirst : ∀ q ∈ s.queue ++ s.outbox.take i, q.2.id ≠ p.2.id) (hc : s.live = true → CoveredWithout s p) :
    Inv texts read { s.onCopies (Copy.miss [p]) with outbox := s.outbox.eraseIdx i } := by
  have hrest : s.outbox.eraseIdx i = s.outbox.take i ++ s.outbox.drop (i + 1) := List.eraseIdx_eq_take_drop_succ ..
  refine h.lost [p] (s.outbox.eraseIdx i) s.eventSource rfl ?_ ?_ ?_ ?_ ?_
  · intro id
    show about id (s.queue ++ s.outbox) = _ ++ about id (s.queue ++ s.outbox.eraseIdx i)
    rw [hrest, ← List.append_assoc, ← about_taken hfirst, List.append_assoc, ← outbox_at hp]
  · exact fun q hq => mem_of_erased hq
  · exact h.stray
  · intro hlive
    rcases hc hlive with hheld | ⟨f, hf, hcurrent⟩
    · exact .inl hheld
    · exact .inr ⟨_, List.mem_map_of_mem hf, hcurrent⟩
  · exact h.idle

/-! ## A board that has settled -/

theorem Inv.shows (h : Inv texts read s) (hsettled : Settled s) : Shows texts read s := by
  obtain ⟨hes, hout, hfetches⟩ := hsettled
  have hlink : s.link = some (.subscribed []) := link_of hes
  have hund : s.undelivered = [] := by rw [undelivered_of hlink, hout, List.append_nil]
  have hlacks : s.held.lacks = false := by
    rcases h.covered (live_of hlink) with hheld | ⟨f, hmem, -⟩
    · exact hheld
    · rw [hfetches] at hmem
      cases hmem
  have hgood : ∀ id, shown displayed (lookup s.held.tasks id) = view texts read s.backend id := by
    intro id
    have hreflects := h.held.good hlacks id
    rw [hund] at hreflects
    exact hreflects.now
  refine (List.perm_ext_iff_of_nodup ?_ (List.Nodup.of_map _ (getTasks_nodup s.backend))).mpr ?_
  · exact List.Nodup.of_map _ (h.held.nodup.sublist (List.filter_sublist.map _))
  · intro task
    rw [List.mem_filter, mem_iff_lookup h.held.nodup, mem_iff_lookup (getTasks_nodup s.backend)]
    change _ ↔ view texts read s.backend task.id = some task
    rw [← hgood task.id]
    unfold shown
    rw [Option.filter_eq_some_iff]

/-! ## The steps -/

section Given

variable [DecidableEq F]

theorem inv_commit (h : Inv texts read s) {backend : Backend} {msg : Option (Msg F)}
    (hle : s.backend.db.nextId ≤ backend.db.nextId) (hknown : ∀ m ∈ msg, m.id < backend.db.nextId)
    (hc : Orderly texts read s (.commit backend msg)) : Inv texts read (commit texts read s backend msg) := by
  obtain ⟨hfits, hquiet, hasked⟩ := hc
  have hcoming := h.coming.commit hle hknown hfits hquiet
  rw [show s.undelivered = s.queue ++ s.outbox from rfl, List.append_assoc] at hcoming
  have hstray : ∀ p ∈ s.leftover, p.2.id < backend.db.nextId := fun p hp => Nat.lt_of_lt_of_le (h.stray p hp) hle
  unfold commit
  by_cases hnone : untold texts read s.backend backend msg = []
  · have hsound : ∀ c, Sound texts read s.backend s.commits s.undelivered c →
        Sound texts read backend (s.commits + 1) (s.queue ++ (s.outbox ++ sent s.commits msg)) c := by
      intro c hc
      rw [← List.append_assoc]
      exact hc.commit h.coming hle hfits hnone
    rw [if_pos hnone]
    exact ⟨hcoming, hsound _ h.held, fun c hc => hsound c (h.served c hc), hstray, h.covered, h.idle⟩
  · rw [if_neg hnone]
    refine ⟨hcoming, h.held.outdate hle, ?_, hstray, ?_, h.idle⟩
    · intro c hc
      obtain ⟨f, hf, hcopy⟩ := List.mem_map.mp hc
      cases f with
      | asked => cases hcopy
      | served c =>
        cases hcopy
        exact (h.served c hf).outdate hle
    · intro hlive
      exact .inr ⟨.asked, List.mem_map.mpr ⟨.asked, hasked hnone hlive, rfl⟩, rfl⟩

theorem inv_deliver (h : Inv texts read s) (hc : Orderly texts read s .deliver) (hs : deliver s = some s') :
    Inv texts read s' := by
  unfold deliver at hs
  split at hs
  next n m queue opened hes =>
    cases hs
    have hlink : s.link = some (.subscribed ((n, m) :: queue)) := link_of hes
    have hund : s.undelivered = (n, m) :: (queue ++ s.outbox) := by
      rw [undelivered_of hlink, List.cons_append]
    have hsplit : ∀ id, about id s.undelivered = about id [(n, m)] ++ about id (queue ++ s.outbox) := by
      intro id
      rw [hund, ← about_append, List.singleton_append]
    have hsub : ∀ p ∈ queue ++ s.outbox, p ∈ s.undelivered := by
      intro p hp
      rw [hund]
      exact List.mem_cons_of_mem _ hp
    have hheld := h.held
    have hcoming := h.coming
    rw [hund] at hheld hcoming
    refine ⟨h.coming.drop _ hsplit hsub, hheld.told hcoming, ?_, List.forall_mem_nil _, ?_, ?_⟩
    · intro c hc
      obtain ⟨f, hf, hcopy⟩ := List.mem_map.mp hc
      cases f with
      | asked => cases hcopy
      | served c =>
        cases hcopy
        exact (h.served c hf).drop hsplit
    · intro _
      have hhead : (n, m) ∈ s.queue.head? := by
        rw [queue_of hlink]
        rfl
      rcases hc (n, m) hhead with hheld | ⟨f, hf, hcurrent⟩
      · exact .inl hheld
      · exact .inr ⟨_, List.mem_map_of_mem hf, hcurrent⟩
    · exact fun hr => (h.busy hlink hr).elim
  next n m queue opened hes =>
    cases hs
    have hlink : s.link = some (.ended ((n, m) :: queue)) := link_of hes
    have hleft : s.leftover = (n, m) :: queue := by
      unfold State.leftover
      rw [hlink]
    have hstray := h.stray
    rw [hleft] at hstray
    have hund : s.undelivered = s.outbox := undelivered_dead (by simp [hlink])
    have hcoming := h.coming
    have hheld := h.held
    have hserved := h.served
    rw [hund] at hcoming hheld hserved
    refine ⟨hcoming, hheld.stray (hstray _ List.mem_cons_self), hserved, ?_, nofun, ?_⟩
    · intro p hp
      exact hstray p (List.mem_cons_of_mem _ hp)
    · exact fun hr => (h.busy hlink hr).elim
  next => cases hs

theorem inv_step (e : Event F) (h : Inv texts read s) (hc : Orderly texts read s e)
    (hs : step texts read s e = some s') : Inv texts read s' := by
  cases e with
  | commit backend msg =>
    change (if _ then _ else _) = _ at hs
    split at hs
    next hrows =>
      cases hs
      exact inv_commit h hrows.1 hrows.2 hc
    next => cases hs
  | publish i =>
    obtain ⟨p, hp, rfl⟩ := Option.map_eq_some_iff.mp hs
    exact inv_publish h hp (hc p hp)
  | giveUp i =>
    obtain ⟨p, hp, rfl⟩ := Option.map_eq_some_iff.mp hs
    obtain ⟨hfirst, hcovered⟩ := hc p hp
    exact inv_giveUp h hp hfirst hcovered
  | start hasToken =>
    change (if _ then _ else _) = _ at hs
    split at hs
    next hfree =>
      cases hs
      obtain ⟨hnone, hidle⟩ := hfree
      have hlink : s.link = none := by
        unfold State.link
        rw [Option.isNone_iff_eq_none.mp hnone]
        rfl
      exact (h.grows (grows_load s)).sseConnect hlink hidle hasToken
    next => cases hs
  | stop =>
    cases hs
    have hclosed : Inv texts read { s.closeStream with reconnecting := false } :=
      h.closeStream.grows ⟨rfl, rfl, rfl, rfl, rfl, ⟨0, (List.append_nil _).symm⟩, nofun⟩
    exact hclosed.grows ((grows_stopPolling _).trans (grows_setStatus _ _))
  | tick =>
    change (if _ then _ else _) = _ at hs
    split at hs
    next =>
      cases hs
      exact h.grows (grows_load s)
    next => cases hs
  | edited =>
    cases hs
    exact h.grows (grows_load s)
  | removed id =>
    cases hs
    exact ⟨h.coming, h.held.removed h.coming hc, h.served, h.stray, h.covered, h.idle⟩
  | serve i =>
    simp only [step] at hs
    split at hs
    next hasked =>
      cases hs
      have hsnap := snapshot_sound h.coming
      refine ⟨h.coming, h.held, ?_, h.stray, ?_, h.idle⟩
      · intro copy hmem
        rcases List.mem_or_eq_of_mem_set hmem with hold | hnew
        · exact h.served copy hold
        · cases hnew
          exact hsnap
      · intro _
        exact .inr ⟨_, List.mem_of_getElem? (Slots.get_set_self hasked _), rfl⟩
    next => cases hs
  | receive i =>
    simp only [step] at hs
    split at hs
    next copy hserved =>
      cases hs
      have hcopy := h.served copy (List.mem_of_getElem? hserved)
      refine ⟨h.coming, hcopy, fun c hmem => h.served c (List.mem_of_mem_eraseIdx hmem), h.stray, ?_, h.idle⟩
      exact fun hlive => hc hlive copy hserved
    next => cases hs
  | fail i =>
    change (if _ then _ else _) = _ at hs
    split at hs
    next =>
      cases hs
      exact ⟨h.coming, h.held, fun c hmem => h.served c (List.mem_of_mem_eraseIdx hmem), h.stray, hc, h.idle⟩
    next => cases hs
  | reconnect hasToken =>
    change (if _ then _ else _) = _ at hs
    split at hs
    next hr =>
      cases hs
      have hcalled : Inv texts read
          { s with reconnecting := false, backoff := min (s.backoff * 2) maxBackoff } :=
        h.grows ⟨rfl, rfl, rfl, rfl, rfl, ⟨0, (List.append_nil _).symm⟩, nofun⟩
      exact hcalled.sseConnect (h.idle hr) rfl hasToken
    next => cases hs
  | subscribe =>
    simp only [step] at hs
    split at hs
    next opened hes =>
      cases hs
      have hlink : s.link = some .requested := link_of hes
      have hund : s.undelivered = s.outbox := undelivered_dead (by simp [hlink])
      have hcoming := h.coming
      have hheld := h.held
      have hserved := h.served
      rw [hund] at hcoming hheld hserved
      refine ⟨hcoming, hheld, hserved, List.forall_mem_nil _, fun _ => hc, ?_⟩
      exact fun hr => (h.busy hlink hr).elim
    next => cases hs
  | opened =>
    obtain ⟨stream, hes, rfl⟩ := Option.map_eq_some_iff.mp hs
    have hg := grows_setStatus s .connected
    refine h.grows ⟨hg.backend, hg.commits, hg.outbox, hg.held, ?_, hg.fetches, hg.reconnecting⟩
    exact (link_of hes).symm
  | deliver => exact inv_deliver h hc hs
  | cut =>
    simp only [step] at hs
    split at hs
    next queue opened hes =>
      cases hs
      have hlink : s.link = some (.subscribed queue) := link_of hes
      have hund := undelivered_of hlink
      refine h.lost queue s.outbox (some ⟨.ended queue, opened⟩) rfl ?_ ?_ ?_ ?_ ?_
      · intro id
        rw [hund]
        exact about_append id queue s.outbox
      · intro p hp
        exact List.mem_append_right _ hp
      · intro p hp
        refine h.coming.known p ?_
        rw [hund]
        exact List.mem_append_left _ hp
      · nofun
      · exact fun hr => (h.busy hlink hr).elim
    next => cases hs
  | lose =>
    simp only [step] at hs
    split at hs
    next =>
      cases hs
      have hg := (grows_setStatus s.closeStream .disconnected).trans (grows_startPolling _)
      exact (h.closeStream.grows hg).timer hg.link
    next => cases hs

theorem inv_init (h : (machine texts read).init s) : Inv texts read s := by
  obtain ⟨hcommits, hout, hheld, hfetches, hes, -, -, hidle, -⟩ := h
  have hlink : s.link = none := by
    unfold State.link
    rw [hes]
    rfl
  have hdead : ∀ queue, s.link ≠ some (.subscribed queue) := by simp [hlink]
  have hund : s.undelivered = [] := (undelivered_dead hdead).trans hout
  refine ⟨?_, ?_, ?_, ?_, ?_, fun _ => hlink⟩
  · rw [hund]
    exact ⟨fun _ => trivial, fun _ => List.Pairwise.nil, List.forall_mem_nil _, List.forall_mem_nil _⟩
  · rw [hheld]
    exact ⟨nofun, List.nodup_nil, List.forall_mem_nil _, Nat.zero_le _⟩
  · intro copy hmem
    rw [hfetches] at hmem
    cases hmem
  · intro p hp
    unfold State.leftover at hp
    rw [hlink] at hp
    cases hp
  · intro hlive
    cases (live_dead hdead).symm.trans hlive

end Given

end Runs

/-! ## A board and one task -/

open Errand.Server.SlackUpdates (someTexts someTask)

/-- The fields as they are sent. -/
def asSent (fields : Fields) : List (String × List Char) := fields.map fun p => (p.1, Json.dumps p.2)

def noTasks : Backend := ⟨⟨0, fun _ => none, Db.fresh_none⟩, []⟩

def oneTask : Backend := ⟨noTasks.db.insert (someTask .pending), []⟩

def theTask : TaskData (List (String × List Char)) := response someTexts asSent oneTask (0, someTask .pending)

def mounted : State (List (String × List Char)) :=
  ⟨noTasks, 0, [], ⟨[], 0, true⟩, [], none, .disconnected, false, false, initialBackoff⟩

theorem mounted_init : (machine someTexts asSent).init mounted := ⟨rfl, rfl, rfl, rfl, rfl, rfl, rfl, rfl, rfl⟩

theorem view_oneTask : view someTexts asSent oneTask 0 = some theTask :=
  view_of_row (Db.insert_self _ _) rfl (by decide) (by decide)

theorem untold_oneTask : untold someTexts asSent noTasks oneTask (some (.created theTask)) = [] := by
  refine List.filter_eq_nil_iff.mpr ?_
  intro id hid hchanged
  have hlt := List.mem_range.mp hid
  obtain rfl : id = 0 := Nat.lt_one_iff.mp hlt
  exact (of_decide_eq_true hchanged).2 rfl

theorem getTasks_none : getTasks someTexts asSent noTasks = [] := by
  refine List.eq_nil_iff_forall_not_mem.mpr ?_
  intro task hmem
  cases getTasks_known hmem

/-- The page has asked for the list and for the stream. -/
def started : State (List (String × List Char)) :=
  { mounted with fetches := [.asked], sseStatus := .connecting, eventSource := some ⟨.requested, false⟩ }

/-- The list has been served, and not received yet. -/
def servedOnce : State (List (String × List Char)) := { started with fetches := [.served ⟨[], 0, false⟩] }

def fetched : State (List (String × List Char)) := { started with held := ⟨[], 0, false⟩, fetches := [] }

/-- The stream is up. -/
def streaming : State (List (String × List Char)) :=
  { fetched with sseStatus := .connected, eventSource := some ⟨.subscribed [], true⟩ }

theorem step_served : (machine someTexts asSent).step started (.serve 0) = some servedOnce := by
  show some _ = _
  rw [show started.backend = noTasks from rfl, getTasks_none]
  rfl

/-- The task is made, where the server has none. -/
theorem step_made (s : State (List (String × List Char))) (h : s.backend = noTasks) :
    (machine someTexts asSent).step s (.commit oneTask (some (.created theTask))) =
      some { s with
        backend := oneTask, commits := s.commits + 1, outbox := s.outbox ++ [(s.commits + 1, .created theTask)] } := by
  have hrows : s.backend.db.nextId ≤ oneTask.db.nextId ∧
      ∀ m ∈ some (Msg.created theTask), m.id < oneTask.db.nextId := by
    rw [h]
    refine ⟨Nat.zero_le _, ?_⟩
    intro m hm
    cases hm
    exact Nat.zero_lt_one
  show (if _ then _ else _) = _
  rw [if_pos hrows]
  unfold commit
  rw [h, if_pos untold_oneTask]
  rfl

end Errand.Frontend.Board

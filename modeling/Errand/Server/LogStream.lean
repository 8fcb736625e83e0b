import Errand.Lib.JsonRoundTrip
import Errand.Lib.Machine
import Errand.Runner.Python

/-
  Errand.Server.LogStream — a task's log lines on their way to a viewer
  (`_forward_log_line`, `_process_task`, errand/task_manager.py; `sse_task_logs`,
  errand/main.py).

  The manager publishes a line to the channel, then appends it to the replay buffer; after
  the last line it publishes the end marker, then deletes the buffer, and some time later
  the task's status leaves `running`. A viewer looks at the status, subscribes, reads the
  whole buffer, then takes what the subscription got. Every operation goes through, and the
  buffer neither reaches its cap nor expires.

  Proved:
  - `published_line`: no line the manager publishes is taken for the end marker, or breaks
    the stream.
  - `step_served`: a step keeps the viewer served exactly if it is not one of three: the
    end published between a viewer's look at the status and its subscription, a look after
    the end, and a buffer read that misses a line from before the subscription.
  - `served_iff`: so does a run.
  - `a_line_between_publish_and_append`, `an_end_before_the_subscription`: runs with these.
-/

namespace Errand.Server.LogStream

open Errand.Lib Errand.Runner

abbrev Text := List Char

/-! ## Messages -/

def taskLogEnd : Json := .obj [("event", .str "task_log_end")]

def taskEvent (type data : Json) : Json := .obj [("event", .str "task_event"), ("type", type), ("data", data)]

def rawEvent (line : String) : Json := taskEvent (.str "raw") (.obj [("line", .str line)])

def liveExcludedEventTypes : List String := ["context_snapshot"]

def isExcluded : Json → Bool
  | .str type => liveExcludedEventTypes.contains type
  | _ => false

/-- `_live_log_message`; only the nesting of a line can make it raise. -/
def liveLogMessage (loads : String → Loads) (line : String) : Except PyError (Option Text) :=
  match loads line with
  | .value (.obj fields) =>
    match Json.lookup "type" fields, Json.lookup "data" fields with
    | some type, some data => if isExcluded type then .ok none else .ok (some (Json.dumps (taskEvent type data)))
    | _, _ => .ok (some (Json.dumps (rawEvent line)))
  | .recursionError => .error .recursionError
  | _ => .ok (some (Json.dumps (rawEvent line)))

/-- Whether a buffered entry is the end marker. -/
def bufferedEnd (entry : Text) : Bool :=
  match Json.parse entry with
  | some j => j.fieldIs "event" "task_log_end"
  | none => false

/-- Whether a live message is, which is looked up in whatever was parsed. -/
def liveEnd (data : Text) : Except PyError Bool :=
  match Json.parse data with
  | some (.obj fields) => .ok (Json.fieldIs "event" "task_log_end" (.obj fields))
  | some _ => .error .attributeError
  | none => .ok false

/-- A message that is passed on. -/
def IsLine (m : Text) : Prop := bufferedEnd m = false ∧ liveEnd m = .ok false

theorem taskEvent_line (type data : Json) : IsLine (Json.dumps (taskEvent type data)) := by
  have hparse : Json.parse (Json.dumps (taskEvent type data)) = some (taskEvent type data) :=
    Json.parse_write Json.spaced_valid _
  unfold IsLine bufferedEnd liveEnd
  rw [hparse]
  exact ⟨rfl, rfl⟩

theorem published_line {loads : String → Loads} {line : String} {m : Text}
    (h : liveLogMessage loads line = .ok (some m)) : IsLine m := by
  unfold liveLogMessage at h
  split at h
  · split at h
    · split at h
      · cases h
      · cases h
        exact taskEvent_line _ _
    · cases h
      exact taskEvent_line _ _
  · cases h
  · cases h
    exact taskEvent_line _ _

def endMessage : Text := Json.dumps taskLogEnd

theorem liveEnd_end : liveEnd endMessage = .ok true := by
  have hparse : Json.parse endMessage = some taskLogEnd := Json.parse_write Json.spaced_valid _
  unfold liveEnd
  rw [hparse]
  rfl

/-! ## The machine -/

inductive Manager where
  | streaming
  /-- Published, not yet in the buffer. -/
  | appending (msg : Text)
  /-- The end marker is published, the buffer still there. -/
  | closing
  | closed
  deriving DecidableEq, Repr

inductive Viewer where
  | away
  /-- Saw the status `running`. -/
  | checked
  | subscribed
  /-- Has read the buffer. -/
  | live
  /-- Got the end marker. -/
  | ended
  /-- Came when the task was no longer running. -/
  | late
  | failed
  deriving DecidableEq, Repr

/-- Beside the state: all lines published, how many there were when the viewer subscribed,
    and what it was sent. -/
structure St where
  running : Bool
  manager : Manager
  buffer : List Text
  viewer : Viewer
  queue : List Text
  published : List Text
  subscribedAt : Nat
  delivered : List Text

def start : St := ⟨true, .streaming, [], .away, [], [], 0, []⟩

/-- The channel hands a message to a subscription. -/
def publish (s : St) (m : Text) : List Text :=
  match s.viewer with
  | .subscribed => s.queue ++ [m]
  | .live => s.queue ++ [m]
  | _ => s.queue

inductive Event where
  | line (line : String)
  | append
  | publishEnd
  | deleteBuffer
  /-- The run's result is recorded. -/
  | finish
  | check
  | subscribe
  | readBuffer
  | receive

/-- The buffered entries up to an end marker, and whether there is one. -/
def replay : List Text → List Text × Bool
  | [] => ([], false)
  | entry :: entries =>
    if bufferedEnd entry then ([], true)
    else
      let r := replay entries
      (entry :: r.1, r.2)

def machine (loads : String → Loads) : Machine St Event where
  init s := s = start
  step s e :=
    match e with
    | .line line =>
      if s.manager = .streaming then
        match liveLogMessage loads line with
        | .ok (some msg) =>
          some { s with manager := .appending msg, queue := publish s msg, published := s.published ++ [msg] }
        | _ => some s
      else none
    | .append =>
      match s.manager with
      | .appending msg => some { s with manager := .streaming, buffer := s.buffer ++ [msg] }
      | _ => none
    | .publishEnd =>
      if s.manager = .streaming then some { s with manager := .closing, queue := publish s endMessage } else none
    | .deleteBuffer => if s.manager = .closing then some { s with manager := .closed, buffer := [] } else none
    | .finish => if s.manager = .closed then some { s with running := false } else none
    | .check =>
      if s.viewer = .away then some { s with viewer := if s.running then .checked else .late } else none
    | .subscribe =>
      if s.viewer = .checked then
        some { s with viewer := .subscribed, queue := [], subscribedAt := s.published.length }
      else none
    | .readBuffer =>
      if s.viewer = .subscribed then
        let (entries, ended) := replay s.buffer
        some { s with viewer := if ended then .ended else .live, delivered := entries }
      else none
    | .receive =>
      if s.viewer = .live then
        match s.queue with
        | [] => none
        | data :: queue =>
          match liveEnd data with
          | .ok true => some { s with viewer := .ended, queue := queue }
          | .ok false => some { s with queue := queue, delivered := s.delivered ++ [data] }
          | .error _ => some { s with viewer := .failed, queue := queue }
      else none

/-! ## What a viewer is owed -/

/-- The end marker is published. -/
def Over : Manager → Prop
  | .closing => True
  | .closed => True
  | _ => False

/-- What was sent and what waits in the subscription is the first lines, up to some point,
    and then all lines from no later a point on: every line at least once, in order up to
    those that come twice. -/
def Covered (s : St) : Prop :=
  ∃ a b, a ≤ b ∧ b ≤ s.published.length ∧
    s.delivered ++ s.queue.filter (· ≠ endMessage) = s.published.take b ++ s.published.drop a

/-- A viewer that saw the task running gets all lines, and the end marker if it is out. -/
def Served (s : St) : Prop :=
  match s.viewer with
  | .away => True
  | .late => True
  | .checked => ¬ Over s.manager
  | .subscribed => Over s.manager → endMessage ∈ s.queue
  | .live => Covered s ∧ (Over s.manager → endMessage ∈ s.queue)
  | .ended => Covered s
  | .failed => False

/-- No step out of turn: the status is looked at before the end is out, the end is not
    published between that and the subscription, and the buffer is read when it has every
    line from before the subscription. -/
def InTurn (s : St) : Event → Prop
  | .check => s.running = true → ¬ Over s.manager
  | .publishEnd => s.viewer ≠ .checked
  | .readBuffer => s.subscribedAt ≤ s.buffer.length
  | _ => True

/-! ## The invariant -/

def Buffered (s : St) : Prop :=
  match s.manager with
  | .streaming => s.buffer = s.published
  | .appending msg => s.published = s.buffer ++ [msg]
  | .closing => s.buffer = s.published
  | .closed => s.buffer = []

/-- The subscription has `lines` and maybe the end marker behind them. -/
structure Queued (s : St) (lines : List Text) : Prop where
  queue : ∃ tail, s.queue = lines ++ tail ∧ (tail = [] ∨ tail = [endMessage] ∧ Over s.manager)
  lines : ∀ m ∈ lines, IsLine m

/-- The viewer read the first `b` lines from the buffer. -/
structure Streamed (s : St) (b : Nat) : Prop where
  replayed : b ≤ s.published.length
  since : s.subscribedAt ≤ s.published.length
  sent : ∃ lines, Queued s lines ∧ s.delivered ++ lines = s.published.take b ++ s.published.drop s.subscribedAt

def Watching (s : St) : Prop :=
  match s.viewer with
  | .away => True
  | .late => True
  | .checked => True
  | .subscribed => s.subscribedAt ≤ s.published.length ∧ Queued s (s.published.drop s.subscribedAt)
  | .live => ∃ b, Streamed s b
  | .ended => ∃ b, Streamed s b ∧ s.queue = [] ∧ Over s.manager
  | .failed => False

structure Inv (s : St) : Prop where
  lines : ∀ m ∈ s.published, IsLine m
  buffered : Buffered s
  watching : Watching s

theorem line_ne_end {m : Text} (h : IsLine m) : m ≠ endMessage := by
  intro heq
  subst heq
  have hend := h.2.symm.trans liveEnd_end
  cases hend

theorem replay_lines {entries : List Text} (h : ∀ m ∈ entries, IsLine m) : replay entries = (entries, false) := by
  induction entries with
  | nil => rfl
  | cons m entries ih =>
    obtain ⟨hm, hrest⟩ := List.forall_mem_cons.mp h
    rw [replay, if_neg (by rw [hm.1]; decide), ih hrest]

theorem filter_lines {lines : List Text} (h : ∀ m ∈ lines, IsLine m) : lines.filter (· ≠ endMessage) = lines := by
  rw [List.filter_eq_self]
  intro m hm
  exact decide_eq_true (line_ne_end (h m hm))

theorem Queued.pending {s : St} {lines : List Text} (h : Queued s lines) :
    s.queue.filter (· ≠ endMessage) = lines := by
  obtain ⟨⟨tail, hq, htail⟩, hlines⟩ := h
  rw [hq, List.filter_append, filter_lines hlines]
  rcases htail with rfl | ⟨rfl, -⟩
  · simp
  · simp

/-- The viewer has every line exactly if it read those from before its subscription. -/
theorem Streamed.covered_iff {s : St} {b : Nat} (h : Streamed s b) : Covered s ↔ s.subscribedAt ≤ b := by
  obtain ⟨hb, ha, lines, hq, hsent⟩ := h
  unfold Covered
  rw [hq.pending, hsent]
  constructor
  · intro hserved
    rcases hserved with ⟨a, c, hac, hc, heq⟩
    have hlen := congrArg List.length heq
    simp only [List.length_append, List.length_take, List.length_drop] at hlen
    omega
  · intro h
    exact ⟨s.subscribedAt, b, h, hb, rfl⟩

/-! ## Steps -/

/-- The two agree on all a viewer sees, and on whether the end is out. -/
structure Alike (s s' : St) : Prop where
  viewer : s'.viewer = s.viewer
  queue : s'.queue = s.queue
  published : s'.published = s.published
  subscribedAt : s'.subscribedAt = s.subscribedAt
  delivered : s'.delivered = s.delivered
  ended : Over s'.manager ↔ Over s.manager

theorem Alike.queued {s s' : St} (h : Alike s s') {lines : List Text} (hq : Queued s lines) : Queued s' lines := by
  obtain ⟨⟨tail, hqueue, htail⟩, hlines⟩ := hq
  refine ⟨⟨tail, h.queue.trans hqueue, ?_⟩, hlines⟩
  rwa [h.ended]

theorem Alike.streamed {s s' : St} (h : Alike s s') {b : Nat} (hs : Streamed s b) : Streamed s' b := by
  obtain ⟨hb, ha, lines, hq, hsent⟩ := hs
  refine ⟨by rwa [h.published], by rwa [h.published, h.subscribedAt], lines, h.queued hq, ?_⟩
  rwa [h.delivered, h.published, h.subscribedAt]

theorem Alike.watching {s s' : St} (h : Alike s s') (hw : Watching s) : Watching s' := by
  unfold Watching at hw ⊢
  rw [h.viewer]
  cases hv : s.viewer with
  | subscribed =>
    rw [hv] at hw
    rw [h.subscribedAt, h.published]
    exact ⟨hw.1, h.queued hw.2⟩
  | live =>
    rw [hv] at hw
    obtain ⟨b, hs⟩ := hw
    exact ⟨b, h.streamed hs⟩
  | ended =>
    rw [hv] at hw
    obtain ⟨b, hs, hqueue, hover⟩ := hw
    exact ⟨b, h.streamed hs, h.queue.trans hqueue, h.ended.mpr hover⟩
  | failed =>
    rw [hv] at hw
    exact hw
  | _ => trivial

theorem Alike.keeps_served {s s' : St} (h : Alike s s') : Served s' ↔ Served s := by
  unfold Served Covered
  rw [h.viewer, h.queue, h.published, h.delivered, h.ended]

/-- A message on its way to a subscription joins it. -/
theorem Queued.concat {s s' : St} {lines : List Text} (h : Queued s lines) (hover : ¬ Over s.manager) {m : Text}
    (hqueue : s'.queue = s.queue ++ [m]) :
    (IsLine m → Queued s' (lines ++ [m])) ∧ (m = endMessage → Over s'.manager → Queued s' lines) := by
  obtain ⟨⟨tail, hq, htail⟩, hlines⟩ := h
  obtain rfl : tail = [] := htail.resolve_right fun h => hover h.2
  rw [List.append_nil] at hq
  constructor
  · intro hm
    refine ⟨⟨[], by rw [hqueue, hq, List.append_nil], .inl rfl⟩, ?_⟩
    intro x hx
    rcases List.mem_append.mp hx with hx | hx
    · exact hlines x hx
    · rw [List.mem_singleton.mp hx]
      exact hm
  · intro heq hover'
    subst heq
    exact ⟨⟨[endMessage], by rw [hqueue, hq], .inr ⟨rfl, hover'⟩⟩, hlines⟩

theorem served_live {s : St} (h : s.viewer = .live) :
    Served s ↔ Covered s ∧ (Over s.manager → endMessage ∈ s.queue) := by
  rw [Served, h]

theorem watching_live {s : St} (h : s.viewer = .live) : Watching s ↔ ∃ b, Streamed s b := by
  rw [Watching, h]

/-- What a published line changes. -/
structure Published (msg : Text) (s s' : St) : Prop where
  before : s.manager = .streaming
  manager : s'.manager = .appending msg
  viewer : s'.viewer = s.viewer
  buffer : s'.buffer = s.buffer
  queue : s'.queue = publish s msg
  published : s'.published = s.published ++ [msg]
  subscribedAt : s'.subscribedAt = s.subscribedAt
  delivered : s'.delivered = s.delivered

theorem Published.streamed {s s' : St} {msg : Text} (h : Published msg s s') (hline : IsLine msg)
    (hv : s.viewer = .live) {b : Nat} (hs : Streamed s b) : Streamed s' b := by
  obtain ⟨hb, ha, lines, hq, hsent⟩ := hs
  have hover : ¬ Over s.manager := by rw [h.before]; exact id
  have hqueue : s'.queue = s.queue ++ [msg] := by rw [h.queue, publish, hv]
  refine ⟨?_, ?_, lines ++ [msg], (hq.concat hover hqueue).1 hline, ?_⟩
  · rw [h.published, List.length_append]
    omega
  · rw [h.published, h.subscribedAt, List.length_append]
    omega
  · rw [h.delivered, h.published, h.subscribedAt, ← List.append_assoc, hsent, List.take_append_of_le_length hb,
      List.drop_append_of_le_length ha, List.append_assoc]

theorem Published.inv {s s' : St} {msg : Text} (h : Published msg s s') (hline : IsLine msg) (hi : Inv s) : Inv s' := by
  have hover : ¬ Over s.manager := by rw [h.before]; exact id
  refine ⟨?_, ?_, ?_⟩
  · intro m hm
    rw [h.published] at hm
    rcases List.mem_append.mp hm with hm | hm
    · exact hi.lines m hm
    · rw [List.mem_singleton.mp hm]
      exact hline
  · have hb := hi.buffered
    unfold Buffered at hb ⊢
    rw [h.before] at hb
    rw [h.manager, h.published, h.buffer, hb]
  · have hw := hi.watching
    unfold Watching at hw ⊢
    rw [h.viewer]
    cases hv : s.viewer with
    | subscribed =>
      rw [hv] at hw
      have hqueue : s'.queue = s.queue ++ [msg] := by rw [h.queue, publish, hv]
      rw [h.published, h.subscribedAt, List.drop_append_of_le_length hw.1, List.length_append]
      exact ⟨by omega, (hw.2.concat hover hqueue).1 hline⟩
    | live =>
      rw [hv] at hw
      obtain ⟨b, hs⟩ := hw
      exact ⟨b, h.streamed hline hv hs⟩
    | ended =>
      rw [hv] at hw
      obtain ⟨b, -, -, hended⟩ := hw
      exact absurd hended hover
    | failed =>
      rw [hv] at hw
      exact hw
    | _ => trivial

theorem Published.keeps_served {s s' : St} {msg : Text} (h : Published msg s s') (hline : IsLine msg) (hi : Inv s) :
    Served s' ↔ Served s := by
  have hover : ¬ Over s.manager := by rw [h.before]; exact id
  have hover' : ¬ Over s'.manager := by rw [h.manager]; exact id
  have hw := hi.watching
  unfold Watching at hw
  cases hv : s.viewer with
  | live =>
    rw [hv] at hw
    obtain ⟨b, hs⟩ := hw
    rw [served_live hv, served_live (h.viewer.trans hv), hs.covered_iff, (h.streamed hline hv hs).covered_iff,
      h.subscribedAt]
    exact and_congr_right fun _ => iff_of_true (fun ho => absurd ho hover') fun ho => absurd ho hover
  | ended =>
    rw [hv] at hw
    obtain ⟨b, -, -, hended⟩ := hw
    exact absurd hended hover
  | _ => simp [Served, h.viewer, hv, hover, hover']

/-! ## The steps one by one -/

theorem line_step {s s' : St} {loads : String → Loads} {line : String} (hi : Inv s)
    (h : (machine loads).step s (.line line) = some s') : Inv s' ∧ (Served s' ↔ Served s) := by
  simp only [machine] at h
  split at h
  · rename_i hm
    split at h
    · rename_i msg hmsg
      obtain rfl := Option.some.inj h
      have hpublished : Published msg s { s with
          manager := .appending msg, queue := publish s msg, published := s.published ++ [msg] } :=
        ⟨hm, rfl, rfl, rfl, rfl, rfl, rfl, rfl⟩
      exact ⟨hpublished.inv (published_line hmsg) hi, hpublished.keeps_served (published_line hmsg) hi⟩
    · cases h
      exact ⟨hi, Iff.rfl⟩
  · cases h

theorem manager_step {s s' : St} (hi : Inv s) (halike : Alike s s') (hbuffered : Buffered s') :
    Inv s' ∧ (Served s' ↔ Served s) := by
  refine ⟨⟨?_, hbuffered, halike.watching hi.watching⟩, halike.keeps_served⟩
  rw [halike.published]
  exact hi.lines

theorem publishEnd_step {s s' : St} {loads : String → Loads} (hi : Inv s)
    (h : (machine loads).step s .publishEnd = some s') : Inv s' ∧ (Served s' ↔ Served s ∧ s.viewer ≠ .checked) := by
  simp only [machine] at h
  split at h
  · rename_i hm
    have hover : ¬ Over s.manager := by rw [hm]; exact id
    generalize hs' : ({ s with manager := .closing, queue := publish s endMessage } : St) = t at h
    obtain rfl := Option.some.inj h
    have hmanager : t.manager = .closing := by rw [← hs']
    have hover' : Over t.manager := by rw [hmanager]; trivial
    have hviewer : t.viewer = s.viewer := by rw [← hs']
    have hqueue : t.queue = publish s endMessage := by rw [← hs']
    have hrest : t.published = s.published ∧ t.subscribedAt = s.subscribedAt ∧ t.delivered = s.delivered := by
      rw [← hs']
      exact ⟨rfl, rfl, rfl⟩
    obtain ⟨hpublished, hsince, hdelivered⟩ := hrest
    have hlines : ∀ m ∈ t.published, IsLine m := by
      rw [hpublished]
      exact hi.lines
    have hbuffered : Buffered t := by
      have hb := hi.buffered
      unfold Buffered at hb ⊢
      rw [hm] at hb
      rw [hmanager, hpublished, ← hs']
      exact hb
    have hw := hi.watching
    unfold Watching at hw
    cases hv : s.viewer with
    | subscribed =>
      rw [hv] at hw
      have hconcat : t.queue = s.queue ++ [endMessage] := by rw [hqueue, publish, hv]
      refine ⟨⟨hlines, hbuffered, ?_⟩, ?_⟩
      · rw [Watching, hviewer, hv, hpublished, hsince]
        exact ⟨hw.1, (hw.2.concat hover hconcat).2 rfl hover'⟩
      · simp [Served, hviewer, hv, hover, hconcat]
    | live =>
      rw [hv] at hw
      obtain ⟨b, hs⟩ := hw
      have hcovered := hs.covered_iff
      obtain ⟨hb, ha, lines, hq, hsent⟩ := hs
      have hconcat : t.queue = s.queue ++ [endMessage] := by rw [hqueue, publish, hv]
      have hst : Streamed t b := by
        refine ⟨by rwa [hpublished], by rwa [hpublished, hsince], lines, (hq.concat hover hconcat).2 rfl hover', ?_⟩
        rwa [hdelivered, hpublished, hsince]
      refine ⟨⟨hlines, hbuffered, (watching_live (hviewer.trans hv)).mpr ⟨b, hst⟩⟩, ?_⟩
      rw [served_live hv, served_live (hviewer.trans hv), hcovered, hst.covered_iff, hsince, hconcat]
      simp [hover]
    | ended =>
      rw [hv] at hw
      obtain ⟨b, -, -, hended⟩ := hw
      exact absurd hended hover
    | failed =>
      rw [hv] at hw
      exact absurd hw id
    | _ =>
      refine ⟨⟨hlines, hbuffered, by rw [Watching, hviewer, hv]; trivial⟩, ?_⟩
      simp [Served, hviewer, hv, hover, hover']
  · cases h

theorem check_step {s s' : St} {loads : String → Loads} (hi : Inv s) (h : (machine loads).step s .check = some s') :
    Inv s' ∧ (Served s' ↔ Served s ∧ (s.running = true → ¬ Over s.manager)) := by
  simp only [machine, Option.ite_none_right_eq_some, Option.some.injEq] at h
  obtain ⟨hv, rfl⟩ := h
  cases hr : s.running with
  | false => exact ⟨⟨hi.lines, hi.buffered, trivial⟩, by simp [Served, hv]⟩
  | true => exact ⟨⟨hi.lines, hi.buffered, trivial⟩, by simp [Served, hv]⟩

theorem subscribe_step {s s' : St} {loads : String → Loads} (hi : Inv s)
    (h : (machine loads).step s .subscribe = some s') : Inv s' ∧ (Served s' ↔ Served s) := by
  simp only [machine, Option.ite_none_right_eq_some, Option.some.injEq] at h
  obtain ⟨hv, rfl⟩ := h
  refine ⟨⟨hi.lines, hi.buffered, ?_⟩, by simp [Served, hv]⟩
  show s.published.length ≤ s.published.length ∧ Queued _ (s.published.drop s.published.length)
  rw [List.drop_length]
  exact ⟨Nat.le_refl _, ⟨[], rfl, .inl rfl⟩, nofun⟩

/-- What the buffer holds is the first lines. -/
theorem Inv.buffer_eq {s : St} (h : Inv s) :
    s.buffer = s.published.take s.buffer.length ∧ s.buffer.length ≤ s.published.length := by
  have hb := h.buffered
  unfold Buffered at hb
  cases hm : s.manager with
  | closed =>
    rw [hm] at hb
    simp [hb]
  | appending msg =>
    rw [hm] at hb
    simp only at hb
    simp [hb]
  | _ =>
    rw [hm] at hb
    simp [hb]

theorem readBuffer_step {s s' : St} {loads : String → Loads} (hi : Inv s)
    (h : (machine loads).step s .readBuffer = some s') :
    Inv s' ∧ (Served s' ↔ Served s ∧ s.subscribedAt ≤ s.buffer.length) := by
  simp only [machine, Option.ite_none_right_eq_some] at h
  obtain ⟨hv, h⟩ := h
  obtain ⟨heq, hlen⟩ := hi.buffer_eq
  have hlines : ∀ m ∈ s.buffer, IsLine m := by
    intro m hm
    rw [heq] at hm
    exact hi.lines m (List.mem_of_mem_take hm)
  rw [replay_lines hlines] at h
  generalize hs' : ({ s with viewer := if false = true then .ended else .live, delivered := s.buffer } : St) = t at h
  obtain rfl := Option.some.inj h
  have hw := hi.watching
  rw [Watching, hv] at hw
  have hviewer : t.viewer = .live := by rw [← hs']; rfl
  have hst : Streamed t s.buffer.length := by
    rw [← hs']
    refine ⟨hlen, hw.1, s.published.drop s.subscribedAt, ⟨hw.2.queue, hw.2.lines⟩, ?_⟩
    show s.buffer ++ _ = _
    rw [← heq]
  refine ⟨⟨?_, ?_, (watching_live hviewer).mpr ⟨_, hst⟩⟩, ?_⟩
  · rw [← hs']
    exact hi.lines
  · rw [← hs']
    exact hi.buffered
  · rw [served_live hviewer, hst.covered_iff, ← hs', Served, hv]
    exact and_comm

theorem receive_step {s s' : St} {loads : String → Loads} (hi : Inv s)
    (h : (machine loads).step s .receive = some s') : Inv s' ∧ (Served s' ↔ Served s) := by
  simp only [machine, Option.ite_none_right_eq_some] at h
  obtain ⟨hv, h⟩ := h
  have hw := hi.watching
  rw [watching_live hv] at hw
  obtain ⟨b, hs⟩ := hw
  have hcovered := hs.covered_iff
  obtain ⟨hb, ha, lines, ⟨⟨tail, hqueue, htail⟩, hlines⟩, hsent⟩ := hs
  cases lines with
  | nil =>
    rcases htail with rfl | ⟨rfl, hover⟩
    · rw [hqueue] at h
      cases h
    · rw [hqueue] at h
      simp only [List.nil_append, liveEnd_end] at h
      obtain rfl := Option.some.inj h
      have hst : Streamed { s with viewer := .ended, queue := [] } b :=
        ⟨hb, ha, [], ⟨⟨[], rfl, .inl rfl⟩, nofun⟩, hsent⟩
      refine ⟨⟨hi.lines, hi.buffered, b, hst, rfl, hover⟩, ?_⟩
      rw [served_live hv, hcovered]
      show Covered _ ↔ _
      rw [hst.covered_iff, hqueue]
      simp
  | cons m lines =>
    obtain ⟨hm, hrest⟩ := List.forall_mem_cons.mp hlines
    rw [hqueue] at h
    simp only [List.cons_append, hm.2] at h
    generalize hs' : ({ s with queue := lines ++ tail, delivered := s.delivered ++ [m] } : St) = t at h
    obtain rfl := Option.some.inj h
    have hviewer : t.viewer = .live := by rw [← hs']; exact hv
    have hst : Streamed t b := by
      rw [← hs']
      refine ⟨hb, ha, lines, ⟨⟨tail, rfl, htail⟩, hrest⟩, ?_⟩
      rw [← hsent]
      simp
    have hmem : endMessage ∈ m :: (lines ++ tail) ↔ endMessage ∈ lines ++ tail := by
      simp [(line_ne_end hm).symm]
    refine ⟨⟨?_, ?_, (watching_live hviewer).mpr ⟨b, hst⟩⟩, ?_⟩
    · rw [← hs']
      exact hi.lines
    · rw [← hs']
      exact hi.buffered
    · rw [served_live hviewer, served_live hv, hst.covered_iff, hcovered, hqueue, List.cons_append, hmem, ← hs']

theorem append_step {s s' : St} {loads : String → Loads} (hi : Inv s)
    (h : (machine loads).step s .append = some s') : Inv s' ∧ (Served s' ↔ Served s) := by
  simp only [machine] at h
  split at h
  · rename_i msg hm
    obtain rfl := Option.some.inj h
    have hb := hi.buffered
    rw [Buffered, hm] at hb
    exact manager_step hi ⟨rfl, rfl, rfl, rfl, rfl, by rw [hm]; rfl⟩ hb.symm
  · cases h

theorem deleteBuffer_step {s s' : St} {loads : String → Loads} (hi : Inv s)
    (h : (machine loads).step s .deleteBuffer = some s') : Inv s' ∧ (Served s' ↔ Served s) := by
  simp only [machine, Option.ite_none_right_eq_some, Option.some.injEq] at h
  obtain ⟨hm, rfl⟩ := h
  exact manager_step hi ⟨rfl, rfl, rfl, rfl, rfl, by rw [hm]; rfl⟩ rfl

theorem finish_step {s s' : St} {loads : String → Loads} (hi : Inv s)
    (h : (machine loads).step s .finish = some s') : Inv s' ∧ (Served s' ↔ Served s) := by
  simp only [machine, Option.ite_none_right_eq_some, Option.some.injEq] at h
  obtain ⟨-, rfl⟩ := h
  exact manager_step hi ⟨rfl, rfl, rfl, rfl, rfl, Iff.rfl⟩ hi.buffered

/-- A step keeps the viewer served exactly if it is in turn. -/
theorem step_served {s s' : St} {loads : String → Loads} {e : Event} (hi : Inv s)
    (h : (machine loads).step s e = some s') : Inv s' ∧ (Served s' ↔ Served s ∧ InTurn s e) := by
  cases e with
  | line line => simpa [InTurn] using line_step hi h
  | append => simpa [InTurn] using append_step hi h
  | publishEnd => exact publishEnd_step hi h
  | deleteBuffer => simpa [InTurn] using deleteBuffer_step hi h
  | finish => simpa [InTurn] using finish_step hi h
  | check => exact check_step hi h
  | subscribe => simpa [InTurn] using subscribe_step hi h
  | readBuffer => exact readBuffer_step hi h
  | receive => simpa [InTurn] using receive_step hi h

theorem start_inv : Inv start ∧ Served start :=
  ⟨⟨nofun, rfl, trivial⟩, trivial⟩

/-! ## Runs -/

theorem served_iff {loads : String → Loads} {es : List Event} {s : St}
    (h : (machine loads).exec start es = some s) :
    Served s ↔ ∀ p ∈ (machine loads).trace start es, InTurn p.1 p.2 := by
  have hrun := Machine.exec_iff_trace (A := fun _ => True) (fun _ _ _ hi _ hst => step_served hi hst) start_inv.1
    (fun _ _ => trivial) h
  rw [hrun]
  exact and_iff_right start_inv.2

/-- A viewer that got the end marker then has every line. -/
theorem ended_viewer {loads : String → Loads} {es : List Event} {s : St}
    (h : (machine loads).exec start es = some s) (hturn : ∀ p ∈ (machine loads).trace start es, InTurn p.1 p.2)
    (hended : s.viewer = .ended) :
    ∃ a b, a ≤ b ∧ b ≤ s.published.length ∧ s.delivered = s.published.take b ++ s.published.drop a := by
  have hserved := (served_iff h).mpr hturn
  have hinv : Inv s := Machine.exec_inv (A := fun _ => True) (fun _ _ _ hi _ hst => (step_served hi hst).1)
    start_inv.1 (fun _ _ => trivial) h
  have hw := hinv.watching
  rw [Watching, hended] at hw
  obtain ⟨_, -, hqueue, -⟩ := hw
  rw [Served, hended] at hserved
  obtain ⟨a, b, hab, hb, heq⟩ := hserved
  rw [hqueue, List.filter_nil, List.append_nil] at heq
  exact ⟨a, b, hab, hb, heq⟩

def notJson : String → Loads := fun _ => .decodeError

theorem a_viewer_ends :
    ∃ s, (machine notJson).exec start [.check, .subscribe, .readBuffer, .line "", .append, .publishEnd, .receive, .receive] = some s ∧
      s.viewer = .ended ∧
      ∃ a b, a ≤ b ∧ b ≤ s.published.length ∧ s.delivered = s.published.take b ++ s.published.drop a := by
  obtain ⟨s, hs, hended⟩ : ∃ s, (machine notJson).exec start
      [.check, .subscribe, .readBuffer, .line "", .append, .publishEnd, .receive, .receive] = some s ∧ s.viewer = .ended :=
    ⟨_, rfl, rfl⟩
  refine ⟨s, hs, hended, ended_viewer hs ?_ hended⟩
  refine List.forall_mem_cons.mpr ⟨fun _ => id, List.forall_mem_cons.mpr ⟨trivial, List.forall_mem_cons.mpr ⟨Nat.le_refl 0, ?_⟩⟩⟩
  refine List.forall_mem_cons.mpr ⟨trivial, List.forall_mem_cons.mpr ⟨trivial, List.forall_mem_cons.mpr ⟨by rintro ⟨⟩, ?_⟩⟩⟩
  exact List.forall_mem_cons.mpr ⟨trivial, List.forall_mem_singleton.mpr trivial⟩

/-- The end marker waits for a viewer that came before the first line. -/
theorem a_served_viewer : Served ⟨true, .closing, [Json.dumps (rawEvent "")], .subscribed,
    [Json.dumps (rawEvent ""), endMessage], [Json.dumps (rawEvent "")], 0, []⟩ := by
  have hrun : (machine notJson).exec start [.check, .subscribe, .line "", .append, .publishEnd] = some
    ⟨true, .closing, [Json.dumps (rawEvent "")], .subscribed, [Json.dumps (rawEvent ""), endMessage],
      [Json.dumps (rawEvent "")], 0, []⟩ := rfl
  refine (served_iff hrun).mpr (List.forall_mem_cons.mpr ⟨fun _ => id, List.forall_mem_cons.mpr ⟨trivial, ?_⟩⟩)
  refine List.forall_mem_cons.mpr ⟨trivial, List.forall_mem_cons.mpr ⟨trivial, ?_⟩⟩
  exact List.forall_mem_singleton.mpr nofun

/-- The viewer subscribes and reads the buffer between the publish and the append of a
    line. -/
theorem a_line_between_publish_and_append :
    ¬ ∀ (es : List Event) (s : St), (machine notJson).exec start es = some s → Served s := by
  intro h
  let msg := Json.dumps (rawEvent "")
  have hrun := h [.check, .line "", .subscribe, .readBuffer, .append]
    ⟨true, .streaming, [msg], .live, [], [msg], 1, []⟩ rfl
  obtain ⟨a, b, hab, -, heq⟩ := hrun.1
  have hlen := congrArg List.length heq
  simp only [List.length_append, List.length_take, List.length_drop, List.filter_nil, List.length_nil,
    List.length_singleton] at hlen
  omega

/-- A viewer that saw the task running subscribes after the end marker. -/
theorem an_end_before_the_subscription :
    ¬ ∀ (es : List Event) (s : St), (machine notJson).exec start es = some s → Over s.manager →
      s.viewer = .live → endMessage ∈ s.queue := by
  intro h
  have hrun := h [.check, .publishEnd, .subscribe, .readBuffer] _ rfl trivial rfl
  exact absurd hrun (by simp)

end Errand.Server.LogStream

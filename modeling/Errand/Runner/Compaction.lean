import Errand.Runner.SummaryPrompt
import Mathlib.Algebra.GroupWithZero.Nat

/-
  Errand.Runner.Compaction — what the pre-model filter makes of a history that no longer
  fits (`filter_model_input`, `_compact_context`, `_trim_context_window`,
  `_snap_split_forward`, `_match_held_summary`, the backoff; task-runner/main.py).

  Over the limit a turn cuts the history once. A turn that ends in a summary keeps the
  prompt and the recent messages with the summary in between: the boundary is where the
  recent messages fill their share, moved behind the results it lies in front of. Any other
  turn keeps the prompt and drops the oldest of the rest until they fit; nothing moves that
  boundary. The summariser's answer is open. A summary that is held stands for the messages
  it covers, known by the digest of their serialisation.

  `CompactionCuts` has what this does to calls and their results, `FilterErrors` which
  histories it raises on, `HeldSummary` what a held summary covers and `FileLists` which
  files it lists.
-/

namespace Errand.Runner.Compaction

open Errand.Lib
open Errand.Runner.Messages
open Errand.Runner.FileOperations
open Errand.Runner.SummaryPrompt

/-- A task runner: its environment and limits, and the libraries. -/
structure Setup where
  py : Python
  env : String → String
  maxContextTokens : Int
  /-- `int(MAX_CONTEXT_TOKENS * TRIM_TARGET_FRACTION)`. -/
  trimTarget : Int
  maxRetainedScreenshots : Int
  sha256 : List Char → String
  prompts : Prompts

/-- The backoff counters and the held summary. -/
structure State where
  turn : Nat
  consecutiveFailures : Nat
  suppressUntilTurn : Nat
  summary : String
  coveredDigest : String
  coveredCount : Nat
  deriving DecidableEq, Repr

def initial : State := ⟨0, 0, 0, "", "", 0⟩

/-- How a summarisation call ends. -/
inductive Reply where
  /-- The client cannot be made. -/
  | clientRaised
  | raised
  | text (s : String)
  deriving DecidableEq, Repr

def keepRecentTokens : Nat := 20000

def compactionBackoffCapTurns : Nat := 16

def compactionSummaryPrefix : String :=
  "The conversation history before this point was compacted into the following summary:"

/-! ## Trimming -/

namespace Setup

variable (R : Setup)

/-- The limit is kept, or there is nothing to drop. -/
def fits (messages : List Json) : Bool :=
  messages.length ≤ 2 || decide ((estimateTokens messages : Int) ≤ R.maxContextTokens)

def trimRest (first : List Json) : List Json → List Json
  | m :: m' :: rest =>
    if R.trimTarget < estimateTokens (first ++ m :: m' :: rest) then trimRest first (m' :: rest) else m :: m' :: rest
  | rest => rest

def trimContextWindow (messages : List Json) : List Json :=
  if R.fits messages then messages else messages.take 1 ++ R.trimRest (messages.take 1) (messages.drop 1)

end Setup

/-! ## The boundary of a compaction -/

/-- The scan from the end: the messages not looked at yet, the latest first. -/
def recentSplit (recent : Nat) : List Json → Nat
  | [] => 1
  | m :: before =>
    if keepRecentTokens < recent + estimateTokens [m] then before.length + 1
    else recentSplit (recent + estimateTokens [m]) before

def snapFrom (limit : Nat) : List Json → Nat → Nat
  | [], splitIdx => splitIdx
  | m :: rest, splitIdx =>
    if splitIdx < limit && isFunctionCallOutput m then snapFrom limit rest (splitIdx + 1) else splitIdx

def snapSplitForward (messages : List Json) (splitIdx : Nat) : Nat :=
  snapFrom (messages.length - 1) (messages.drop splitIdx) splitIdx

def splitIndex (messages : List Json) : Nat :=
  snapSplitForward messages (max 2 (min (recentSplit 0 messages.reverse) (messages.length - 1)))

/-! ## The held summary and the backoff -/

def compactionSuppressed (st : State) : Bool := st.turn < st.suppressUntilTurn

def recordCompactionFailure (st : State) : State :=
  let failures := st.consecutiveFailures + 1
  { st with
    consecutiveFailures := failures
    suppressUntilTurn := st.turn + min (2 ^ failures) compactionBackoffCapTurns }

def recordCompactionSuccess (st : State) : State := { st with consecutiveFailures := 0, suppressUntilTurn := 0 }

def resetCompactionBackoff (st : State) : State :=
  { st with turn := 0, consecutiveFailures := 0, suppressUntilTurn := 0 }

def resetCompactionSummary (st : State) : State := { st with summary := "", coveredDigest := "", coveredCount := 0 }

def summaryMessage (summaryText : String) : Json :=
  .obj [("role", .str "user"),
    ("content", .str (compactionSummaryPrefix ++ "\n\n<summary>\n" ++ summaryText ++ "\n</summary>"))]

/-- The text of a message's content, as `_compact_context` reads it. -/
def contentOf (py : Python) (m : Json) : Except PyError String := contentText py (getD m "content" (.str ""))

def isCompactionSummary (m : Json) : Except PyError Bool :=
  match m with
  | .obj _ =>
    match getD m "content" (.str "") with
    | .str s => .ok ((PyStr.stripString s).startsWith compactionSummaryPrefix)
    | .arr parts =>
      (joinTexts parts).map fun texts =>
        (PyStr.stripString (" ".intercalate texts)).startsWith compactionSummaryPrefix
    | _ => .ok false
  | _ => .ok false

def isBlank (s : String) : Bool := (PyStr.strip s.toList).isEmpty

namespace Setup

variable (R : Setup)

def digestMessages (messages : List Json) : String := R.sha256 (Json.dumps (Json.arr messages).sortKeys)

def holdSummary (st : State) (summaryText : String) (covered : List Json) : State :=
  { st with summary := summaryText, coveredDigest := R.digestMessages covered, coveredCount := covered.length }

/-- The held summary and the messages beyond it, if it covers a prefix. -/
def matchHeldSummary (st : State) (toSummarize : List Json) : Option (String × List Json) :=
  if st.summary.isEmpty then none
  else if st.coveredCount = 0 ∨ toSummarize.length < st.coveredCount then none
  else if R.digestMessages (toSummarize.take st.coveredCount) ≠ st.coveredDigest then none
  else some (st.summary, toSummarize.drop st.coveredCount)

/-- The summary a marked message brings, and the messages after it. -/
def markedSummary (toSummarize : List Json) : Except PyError (String × List Json) :=
  match toSummarize with
  | [] => .ok ("", [])
  | m :: rest =>
    match isCompactionSummary m with
    | .error e => .error e
    | .ok false => .ok ("", m :: rest)
    | .ok true => (contentOf R.py m).map fun existing => (existing, rest)

def compactionModel : String :=
  let model := PyStr.stripString (R.env "COMPACTION_MODEL")
  if model.isEmpty then PyStr.stripString (R.env "OPENAI_MODEL") else model

/-- A model and a key to ask it with. -/
def configured : Bool := !R.compactionModel.isEmpty && !(PyStr.stripString (R.env "OPENAI_API_KEY")).isEmpty

/-! ## One turn -/

/-- A summarisation call about to be made. -/
structure Request where
  preserved : List Json
  toSummarize : List Json
  toKeep : List Json
  /-- The held summary covers the messages in front of the new ones. -/
  held : Bool
  existing : String
  new : List Json
  files : Operations
  userContent : String

inductive Prepared where
  | returned (messages : List Json)
  | request (q : Request)

/-- The messages between the prompt and the recent ones, in front of the new ones a
    summary there is. -/
def ask (preserved toSummarize toKeep : List Json) (held : Bool) (existing : String) (new : List Json) :
    Except PyError Request :=
  match extractFileOperations R.py new with
  | .error e => .error e
  | .ok files =>
    match serializeMessagesForSummary R.py new with
    | .error e => .error e
    | .ok conversation =>
      .ok ⟨preserved, toSummarize, toKeep, held, existing, new, files, userContent R.prompts existing conversation⟩

/-- From the split on: a list to return, or a call to make. -/
def prepare (st : State) (messages preserved toSummarize toKeep : List Json) : Except PyError Prepared :=
  let call (held : Bool) (existing : String) (new : List Json) : Except PyError Prepared :=
    match R.ask preserved toSummarize toKeep held existing new with
    | .error e => .error e
    | .ok q => if R.configured then .ok (.request q) else .ok (.returned (R.trimContextWindow messages))
  match R.matchHeldSummary st toSummarize with
  | some (summary, []) => .ok (.returned (preserved ++ summaryMessage summary :: toKeep))
  | some (summary, new) => call true summary new
  | none =>
    match R.markedSummary toSummarize with
    | .error e => .error e
    | .ok (existing, new) => call false existing new

/-- A turn over the limit, until it calls the model if it does. -/
def plan (st : State) (messages : List Json) : Except PyError Prepared :=
  if compactionSuppressed st then .ok (.returned (R.trimContextWindow messages))
  else
    match contextContributors R.py messages with
    | .error e => .error e
    | .ok _ =>
      let splitIdx := splitIndex messages
      match isCompactionSummary (messages.headD .null) with
      | .error e => .error e
      | .ok marked =>
        let preserved := if marked then [] else messages.take 1
        let toSummarize := (messages.take splitIdx).drop preserved.length
        R.prepare st messages preserved toSummarize (messages.drop splitIdx)

/-- A summariser's text with the file lists behind it. -/
def withLists (s : String) (lists : List Char) : String :=
  if lists.isEmpty then s else String.ofList (PyStr.rstrip s.toList ++ "\n\n".toList ++ lists)

/-- The summary an answer makes, none for one that has no text. -/
def Request.newSummary (q : Request) : Reply → Except PyError (Option String)
  | .clientRaised => .error .other
  | .raised => .ok none
  | .text s =>
    if isBlank s then .ok none
    else
      match formatFileLists q.files q.existing.toList with
      | .error e => .error e
      | .ok lists => .ok (some (withLists s lists))

/-- The rest of the turn, once the call has ended. A failure's snapshot is of the messages
    the turn began with, and has been taken once. -/
def conclude (st : State) (messages : List Json) (q : Request) (reply : Reply) : Except PyError (List Json) × State :=
  match q.newSummary reply with
  | .error e => (.error e, st)
  | .ok none => (.ok (R.trimContextWindow messages), recordCompactionFailure st)
  | .ok (some summary) =>
    (.ok (q.preserved ++ summaryMessage summary :: q.toKeep),
      recordCompactionSuccess (R.holdSummary st summary q.toSummarize))

def compactContext (st : State) (reply : Reply) (messages : List Json) : Except PyError (List Json) × State :=
  if R.fits messages then (.ok messages, st)
  else
    let st := { st with turn := st.turn + 1 }
    match R.plan st messages with
    | .error e => (.error e, st)
    | .ok (.returned l) => (.ok l, st)
    | .ok (.request q) => R.conclude st messages q reply

def filterModelInput (st : State) (reply : Reply) (messages : List Json) : Except PyError (List Json) × State :=
  match sanitizeToolCalls R.py messages with
  | .error e => (.error e, st)
  | .ok messages => R.compactContext st reply (stripScreenshots R.maxRetainedScreenshots messages)

/-! ## What a turn plans -/

/-- The held summary covers just these messages. -/
def Covers (R : Setup) (st : State) (toSummarize : List Json) : Prop :=
  ∃ summary, R.matchHeldSummary st toSummarize = some (summary, [])

/-- Where the new messages of a request begin: behind those the held summary covers, or
    behind a marked message. -/
inductive Begins (st : State) (toSummarize : List Json) (q : Request) : Prop
  | held : q.held = true → R.matchHeldSummary st toSummarize = some (q.existing, q.new) → q.new ≠ [] →
      Begins st toSummarize q
  | marked : q.held = false → R.matchHeldSummary st toSummarize = none →
      R.markedSummary toSummarize = .ok (q.existing, q.new) → Begins st toSummarize q

/-- The request made of these messages. -/
structure Asks (st : State) (first middle last : List Json) (q : Request) : Prop where
  preserved : q.preserved = first
  toSummarize : q.toSummarize = middle
  toKeep : q.toKeep = last
  files : extractFileOperations R.py q.new = .ok q.files
  conversation : ∃ conversation, serializeMessagesForSummary R.py q.new = .ok conversation ∧
    q.userContent = userContent R.prompts q.existing conversation
  begins : R.Begins st middle q

inductive Prepares (st : State) (messages preserved toSummarize toKeep : List Json) : Prepared → Prop
  | reused {summary : String} : R.matchHeldSummary st toSummarize = some (summary, []) →
      Prepares st messages preserved toSummarize toKeep (.returned (preserved ++ summaryMessage summary :: toKeep))
  | unconfigured : ¬ R.Covers st toSummarize → R.configured = false →
      Prepares st messages preserved toSummarize toKeep (.returned (R.trimContextWindow messages))
  | asked {q : Request} : ¬ R.Covers st toSummarize → R.configured = true →
      R.Asks st preserved toSummarize toKeep q →
      Prepares st messages preserved toSummarize toKeep (.request q)

variable {R}

theorem ask_spec {preserved toSummarize toKeep new : List Json} {held : Bool} {existing : String} {q : Request}
    (h : R.ask preserved toSummarize toKeep held existing new = .ok q) :
    ∃ files conversation, extractFileOperations R.py new = .ok files ∧
      serializeMessagesForSummary R.py new = .ok conversation ∧
      q = ⟨preserved, toSummarize, toKeep, held, existing, new, files, userContent R.prompts existing conversation⟩ := by
  unfold ask at h
  split at h
  · cases h
  · rename_i files hfiles
    split at h
    · cases h
    · rename_i conversation hconversation
      cases h
      exact ⟨files, conversation, hfiles, hconversation, rfl⟩

theorem prepare_spec {st : State} {messages preserved toSummarize toKeep : List Json} {x : Prepared}
    (h : R.prepare st messages preserved toSummarize toKeep = .ok x) :
    R.Prepares st messages preserved toSummarize toKeep x := by
  -- with new messages the model is asked, if there is one
  have call : ∀ {held : Bool} {existing : String} {new : List Json}, ¬ R.Covers st toSummarize →
      (∀ q : Request, q.held = held → q.existing = existing → q.new = new → R.Begins st toSummarize q) →
      (match R.ask preserved toSummarize toKeep held existing new with
        | .error e => .error e
        | .ok q => if R.configured then .ok (.request q) else .ok (.returned (R.trimContextWindow messages)) :
        Except PyError Prepared) = .ok x →
      R.Prepares st messages preserved toSummarize toKeep x := by
    intro held existing new hno hbegins hx
    split at hx
    · cases hx
    · rename_i q hq
      obtain ⟨files, conversation, hfiles, hconversation, rfl⟩ := ask_spec hq
      cases hc : R.configured with
      | true =>
        rw [hc, if_pos rfl] at hx
        cases hx
        exact .asked hno hc ⟨rfl, rfl, rfl, hfiles, ⟨conversation, hconversation, rfl⟩, hbegins _ rfl rfl rfl⟩
      | false =>
        rw [hc, if_neg (by decide)] at hx
        cases hx
        exact .unconfigured hno hc
  unfold prepare at h
  simp only at h
  split at h
  · rename_i hm
    cases h
    exact .reused hm
  · rename_i summary new hnew hm
    apply call _ _ h
    · intro hsome
      rcases hsome with ⟨s, hs⟩
      rw [hm] at hs
      cases hs
      exact hnew rfl
    · intro q hheld hexisting hq
      exact .held hheld (by rw [hm, hexisting, hq]) (by rw [hq]; exact hnew)
  · rename_i hm
    split at h
    · cases h
    · rename_i existing new hmarked
      apply call _ _ h
      · intro hsome
        rcases hsome with ⟨s, hs⟩
        rw [hm] at hs
        cases hs
      · intro q hheld hexisting hq
        exact .marked hheld hm (by rw [hmarked, hexisting, hq])

/-! ## What a call ends in -/

theorem newSummary_some {q : Request} {reply : Reply} {summary : String} (h : q.newSummary reply = .ok (some summary)) :
    ∃ s lists, reply = .text s ∧ isBlank s = false ∧ formatFileLists q.files q.existing.toList = .ok lists ∧
      summary = withLists s lists := by
  unfold Request.newSummary at h
  split at h
  · cases h
  · cases h
  · rename_i s
    split at h
    · cases h
    · rename_i hb
      split at h
      · cases h
      · rename_i lists hl
        cases h
        exact ⟨s, lists, rfl, by simpa using hb, hl, rfl⟩

theorem newSummary_none {q : Request} {reply : Reply} (h : q.newSummary reply = .ok none) :
    ∀ s, reply = .text s → isBlank s = true := by
  intro s hs
  subst hs
  unfold Request.newSummary at h
  simp only at h
  split at h
  · rename_i hb
    exact hb
  · split at h <;> cases h

/-! ## Where the new messages begin -/

theorem matchHeldSummary_some {st : State} {toSummarize new : List Json} {summary : String}
    (h : R.matchHeldSummary st toSummarize = some (summary, new)) :
    st.summary.isEmpty = false ∧ summary = st.summary ∧ st.coveredCount ≤ toSummarize.length ∧
      R.digestMessages (toSummarize.take st.coveredCount) = st.coveredDigest ∧ new = toSummarize.drop st.coveredCount := by
  unfold matchHeldSummary at h
  split at h
  · cases h
  · rename_i hs
    split at h
    · cases h
    · rename_i hcount
      split at h
      · cases h
      · rename_i hdigest
        cases h
        exact ⟨by simpa using hs, rfl, by omega, by simpa using hdigest, rfl⟩

/-- A marked message in front, if there is one, stands before the new messages. -/
theorem markedSummary_split {toSummarize new : List Json} {existing : String}
    (h : R.markedSummary toSummarize = .ok (existing, new)) :
    ∃ lead, toSummarize = lead ++ new ∧ (lead = [] ∨ ∃ m, lead = [m] ∧ isCompactionSummary m = .ok true) := by
  unfold markedSummary at h
  split at h
  · cases h
    exact ⟨[], rfl, .inl rfl⟩
  · rename_i m rest
    split at h
    · cases h
    · cases h
      exact ⟨[], rfl, .inl rfl⟩
    · rename_i hm
      cases hc : contentOf R.py m with
      | error e => rw [hc] at h; cases h
      | ok s =>
        rw [hc] at h
        cases h
        exact ⟨[m], rfl, .inr ⟨m, rfl, hm⟩⟩

end Setup

/-- What a compaction keeps of the front: the prompt, unless that is a summary itself. -/
def front (messages : List Json) : List Json :=
  match isCompactionSummary (messages.headD .null) with
  | .ok true => []
  | _ => messages.take 1

/-- The stretch between what is kept of the front and the cut. -/
def Setup.dropped (messages front : List Json) (k : Nat) : List Json := (messages.take k).drop front.length

/-- What a turn over the limit summarises, if it gets that far. -/
def summarised (messages : List Json) : List Json := Setup.dropped messages (front messages) (splitIndex messages)

namespace Setup

variable {R : Setup}

/-- A turn either is suppressed or prepares a summary between the front and the split. -/
theorem plan_spec {st : State} {messages : List Json} {x : Prepared} (h : R.plan st messages = .ok x) :
    (compactionSuppressed st = true ∧ x = .returned (R.trimContextWindow messages)) ∨
    (compactionSuppressed st = false ∧
      R.Prepares st messages (front messages) (summarised messages) (messages.drop (splitIndex messages)) x) := by
  unfold plan at h
  split at h
  · rename_i hsup
    cases h
    exact .inl ⟨hsup, rfl⟩
  · rename_i hsup
    right
    refine ⟨by simpa using hsup, ?_⟩
    split at h
    · cases h
    · simp only at h
      split at h
      · cases h
      · rename_i marked hmarked
        have hfront : (if marked = true then [] else messages.take 1) = front messages := by
          unfold front
          rw [hmarked]
          cases marked <;> rfl
        rw [hfront] at h
        exact prepare_spec h

end Setup

end Errand.Runner.Compaction

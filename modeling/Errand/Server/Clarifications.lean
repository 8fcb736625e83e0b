import Errand.Lib.InOrder
import Errand.Server.Drafts

/-
  Errand.Server.Clarifications — one draft whose requests come one after another
  (`answer`, `_classify`, `confirm`, `cancel`, errand/clarify.py; `generate_title`, llm.py).

  Each classification may fail (an answer that is no success, after which the draft is ready)
  or raise (after which the row is as it was). Beside the draft stand the rounds of answers it
  has taken, how often it has asked, and the classifier's requests.

  Proved:
  - `step_inv`, `run_inv`: how far a draft's rounds have come and what its conversation holds.
  - `clarified`: the user is asked no more often than the setting says and the draft is then
    ready and stays so; every request has all the answers in order; after a failure the
    description that would run has the input and every answer.
-/

namespace Errand.Server.Clarifications

open Errand.Lib Errand.Runner Errand.Server.Tasks Errand.Server.TaskCreation Errand.Server.Drafts

/-! ## The request to the classifier -/

def roleText : Role → String
  | .user => "user"
  | .assistant => "assistant"

/-- The `history` of `_classify`. -/
def history (conversation : List Turn) : List Turn := conversation.drop 1

/-- `user_content`. -/
def userContent (description : String) (history : List Turn) : String :=
  let content := "Classify this task:\n\n" ++ description
  if history = [] then content
  else
    content ++ "\n\nClarifying exchange so far (the user's answers are part of the task description):" ++ "\n\n" ++
      "\n\n".intercalate (history.map fun turn => roleText turn.role ++ ": " ++ turn.content)

/-! ## A conversation -/

/-- A set of answers. -/
structure Round where
  questions : List Question
  responses : List (String × Json)

/-- The answers that are not empty, each with its question. -/
def Round.lines (r : Round) : List String := r.questions.filterMap (answerLine r.responses)

def Round.content (r : Round) : String := answerContent r.questions r.responses

structure St where
  draft : TaskSpecDraft
  /-- The answers taken. -/
  rounds : List Round
  /-- How often the user has been asked. -/
  asks : Nat
  /-- The requests to the classifier, each with the answers given so far. -/
  requests : List (String × List Round)
  /-- The last classification failed. -/
  failed : Bool

/-- A request's outcome is open where nothing is committed. -/
inductive Ev where
  | answer (owner : String) (now : Timestamp) (responses : List (String × Json)) (outcome : Option Classified)
  | confirm (owner : String) (now : Timestamp) (committed : Bool)
  | cancel (owner : String) (now : Timestamp) (committed : Bool)
  | sweep (now : Timestamp)

def asksOf (draft : TaskSpecDraft) : Nat := if draft.status = .drafting then 1 else 0

def start (inputText owner : String) (now : Timestamp) (classified : Classified) : St :=
  let draft := begin inputText owner now classified
  ⟨draft, [], asksOf draft, [(userContent draft.inputText [], [])], !classified.result.success⟩

/-- `answer`, of a request that `_load` and the checks after it let in. -/
def take (value : Int) (s : St) (now : Timestamp) (responses : List (String × Json)) (outcome : Option Classified) : St :=
  let round : Round := ⟨s.draft.questions.getD [], responses⟩
  let asked := s.draft.conversation ++ [⟨.user, round.content⟩]
  let requests := s.requests ++ [(userContent s.draft.inputText (history asked), s.rounds ++ [round])]
  match outcome with
  | none => { s with requests := requests }
  | some classified =>
    let draft := answered s.draft round.content now classified value.toNat
    ⟨draft, s.rounds ++ [round], s.asks + asksOf draft, requests, !classified.result.success⟩

def step (value : Int) (s : St) : Ev → St
  | .answer owner now responses outcome =>
    match asked owner now (.answer responses) s.draft with
    | none => s
    | some _ => take value s now responses outcome
  | .confirm owner now committed =>
    match asked owner now (.confirm []) s.draft with
    | none => s
    | some _ =>
      if s.draft.status.active && committed then { s with draft := { s.draft with status := .confirmed } } else s
  | .cancel owner now committed =>
    match asked owner now .cancel s.draft with
    | none => s
    | some _ => if committed then { s with draft := { s.draft with status := .abandoned } } else s
  | .sweep now =>
    if Expired now s.draft then { s with draft := { s.draft with status := .abandoned } } else s

def run (value : Int) (s : St) (evs : List Ev) : St := evs.foldl (step value) s

/-! ## What a step can do -/

theorem asked_answer {owner : String} {now : Timestamp} {responses : List (String × Json)} {draft : TaskSpecDraft} {op : Op}
    (h : asked owner now (.answer responses) draft = some op) :
    draft.status = .drafting ∧ op = .answer (answerContent (draft.questions.getD []) responses) := by
  unfold asked at h
  split at h
  · cases h
  · simp only at h
    split at h
    · cases h
    · rename_i hopen
      cases h
      refine ⟨?_, rfl⟩
      by_contra hstatus
      exact hopen (.inl hstatus)

/-- The columns a classification leaves, and the status it gives. -/
theorem classify_fixed (draft : TaskSpecDraft) (classified : Classified) (capReached : Bool) :
    (classify draft classified capReached).ownerId = draft.ownerId ∧
      (classify draft classified capReached).inputText = draft.inputText ∧
      (classify draft classified capReached).resolvedTaskId = draft.resolvedTaskId ∧
      ((classify draft classified capReached).status = .drafting ∧ capReached = false ∨
        (classify draft classified capReached).status = .ready) := by
  simp only [classify]
  generalize (if classified.result.success = true then classified.questions else []) = questions
  by_cases hopen : questions ≠ [] ∧ capReached = false
  · rw [if_pos hopen]
    exact ⟨rfl, rfl, rfl, .inl ⟨rfl, hopen.2⟩⟩
  · rw [if_neg hopen]
    exact ⟨rfl, rfl, rfl, .inr rfl⟩

/-! ## Answers and what is made of them -/

theorem content_lines (r : Round) : InOrder (r.lines.map String.toList) r.content.toList := by
  have hjoined : InOrder (r.lines.map String.toList) ("\n".intercalate r.lines).toList := by
    have hlines : InOrder (r.lines.flatMap fun l => [l.toList]) ("\n".toList.intercalate (r.lines.map String.toList)) :=
      inOrder_intercalate (fun l _ => inOrder_self l.toList) "\n".toList
    rw [← List.map_eq_flatMap] at hlines
    rwa [String.toList_intercalate]
  unfold Round.content answerContent
  dsimp only
  split
  · rename_i hempty
    refine inOrder_of_nil ?_ _
    have hnone : "\n".intercalate r.lines = "" := String.isEmpty_iff.mp hempty
    rwa [hnone] at hjoined
  · exact hjoined

/-- The turns behind the input, as the classifier is sent them. -/
def exchange (turns : List Turn) : List (List Char) := turns.map fun turn => (roleText turn.role ++ ": " ++ turn.content).toList

/-- The answers stand in the exchange. -/
theorem exchange_lines {turns : List Turn} {rounds : List Round}
    (h : (turns.filter (·.role = .user)).map (·.content) = rounds.map Round.content) :
    InOrder ((rounds.flatMap Round.lines).map String.toList) ("\n\n".toList.intercalate (exchange turns)) := by
  induction turns generalizing rounds with
  | nil =>
    obtain rfl : rounds = [] := by simpa using h.symm
    trivial
  | cons turn turns ih =>
    obtain ⟨role, content⟩ := turn
    cases role with
    | assistant =>
      show InOrder ([] ++ _) _
      exact inOrder_intercalate_cons "\n\n".toList trivial (ih h)
    | user =>
      cases rounds with
      | nil => cases h
      | cons r rounds =>
        obtain ⟨hcontent, hrest⟩ := List.cons.inj h
        rw [List.flatMap_cons, List.map_append]
        refine inOrder_intercalate_cons "\n\n".toList ?_ (ih hrest)
        have hline : content = r.content := hcontent
        subst hline
        show InOrder _ (roleText .user ++ ": " ++ r.content).toList
        rw [String.toList_append]
        exact inOrder_behind (content_lines r) _

theorem userContent_lines {turns : List Turn} {rounds : List Round}
    (h : (turns.filter (·.role = .user)).map (·.content) = rounds.map Round.content) (description : String) :
    InOrder ((rounds.flatMap Round.lines).map String.toList) (userContent description turns).toList := by
  have hlines := exchange_lines h
  unfold userContent
  dsimp only
  split
  · rename_i hnone
    subst hnone
    obtain rfl : rounds = [] := by simpa using h.symm
    trivial
  · rw [String.toList_append, String.toList_intercalate, List.map_map]
    exact inOrder_behind hlines _

/-- The description made of the input and the answers has them all. -/
theorem composed_lines {draft : Draft} {rounds : List Round} (h : draft.answers = rounds.map Round.content) :
    InOrder ((draft.inputText :: rounds.flatMap Round.lines).map String.toList) (composedDescription draft).toList := by
  unfold composedDescription
  split
  · rename_i hnone
    rw [List.isEmpty_iff.mp hnone] at h
    obtain rfl : rounds = [] := by simpa using h.symm
    exact inOrder_self draft.inputText.toList
  · have hanswers : InOrder (rounds.flatMap fun r => r.lines.map String.toList)
        ("\n".toList.intercalate (rounds.map fun r => r.content.toList)) :=
      inOrder_intercalate (fun r _ => content_lines r) "\n".toList
    rw [String.toList_append, String.toList_append, String.toList_intercalate, h, List.map_map, List.append_assoc,
      List.map_cons, List.map_flatMap]
    exact inOrder_append (inOrder_self _) (inOrder_behind hanswers _)

/-! ## Rounds -/

/-- How far a draft has come, and what its conversation holds. -/
structure Inv (value : Int) (s : St) : Prop where
  conversation : ∃ rest, s.draft.conversation = ⟨.user, s.draft.inputText⟩ :: rest ∧
    (rest.filter (·.role = .user)).map (·.content) = s.rounds.map Round.content
  round : s.draft.round = s.rounds.length
  unanswered : s.draft.status = .drafting → s.asks = s.rounds.length + 1 ∧ s.rounds.length < max 1 value.toNat
  asks : s.asks ≤ max 1 value.toNat
  spec : s.failed = true → s.draft.spec = []
  requests : ∀ request ∈ s.requests, InOrder ((request.2.flatMap Round.lines).map String.toList) request.1.toList

theorem asksOf_le (draft : TaskSpecDraft) : asksOf draft ≤ 1 := by
  unfold asksOf
  split
  · exact le_rfl
  · exact Nat.zero_le 1

/-- A classification that follows a user's turn. -/
theorem Inv.classified {value : Int} {draft : TaskSpecDraft} {rest : List Turn} {rounds : List Round} {asks : Nat}
    {requests : List (String × List Round)} (classified : Classified) (capReached : Bool)
    (hconv : draft.conversation = ⟨.user, draft.inputText⟩ :: rest)
    (hrest : (rest.filter (·.role = .user)).map (·.content) = rounds.map Round.content)
    (hround : draft.round = rounds.length) (hasks : asks = rounds.length) (hle : asks ≤ max 1 value.toNat)
    (hcap : capReached = false → rounds.length < max 1 value.toNat)
    (hrequests : ∀ request ∈ requests, InOrder ((request.2.flatMap Round.lines).map String.toList) request.1.toList) :
    Inv value ⟨classify draft classified capReached, rounds, asks + asksOf (classify draft classified capReached), requests,
      !classified.result.success⟩ := by
  obtain ⟨hr, -, hspec, content, hc⟩ := classify_spec draft classified capReached
  obtain ⟨-, hinput, -, hstatus⟩ := classify_fixed draft classified capReached
  refine ⟨⟨rest ++ [⟨.assistant, content⟩], ?_, ?_⟩, hr.trans hround, ?_, ?_, ?_, hrequests⟩
  · show (classify draft classified capReached).conversation = _
    rw [hc, hconv, hinput]
    rfl
  · rw [List.filter_append, List.map_append, hrest]
    exact List.append_nil _
  · intro hdrafting
    rcases hstatus with ⟨-, hopen⟩ | hready
    · refine ⟨?_, hcap hopen⟩
      show asks + asksOf _ = _
      rw [asksOf, if_pos hdrafting, hasks]
    · rw [hready] at hdrafting
      cases hdrafting
  · show asks + asksOf _ ≤ _
    rcases hstatus with ⟨-, hopen⟩ | hready
    · have hlt := hcap hopen
      have hone := asksOf_le (classify draft classified capReached)
      omega
    · rw [asksOf, if_neg (by rw [hready]; decide)]
      exact hle
  · intro hfailed
    have hsuccess : classified.result.success = false := by simpa using hfailed
    show (classify draft classified capReached).spec = []
    rw [hspec, hsuccess]
    rfl

theorem start_inv (value : Int) (inputText owner : String) (now : Timestamp) (classified : Classified) :
    Inv value (start inputText owner now classified) := by
  have hinv : Inv value _ := @Inv.classified value
    ⟨owner, PyStr.stripString inputText, [⟨.user, PyStr.stripString inputText⟩], [], none, false, .drafting, 0,
      now + draftTtl, none⟩ [] [] 0 [(userContent (begin inputText owner now classified).inputText [], [])]
    classified false rfl rfl rfl rfl (Nat.zero_le _) (fun _ => lt_of_lt_of_le Nat.zero_lt_one (le_max_left ..)) (fun request hmem => ?_)
  · unfold start
    dsimp only
    rw [Nat.zero_add] at hinv
    exact hinv
  · rw [List.mem_singleton] at hmem
    subst hmem
    trivial

theorem take_inv {value : Int} {s : St} (h : Inv value s) (hstatus : s.draft.status = .drafting) (now : Timestamp)
    (responses : List (String × Json)) (outcome : Option Classified) : Inv value (take value s now responses outcome) := by
  obtain ⟨rest, hconv, hrest⟩ := h.conversation
  obtain ⟨hasks, hlt⟩ := h.unanswered hstatus
  let round : Round := ⟨s.draft.questions.getD [], responses⟩
  have hturns : ((rest ++ [(⟨.user, round.content⟩ : Turn)]).filter (·.role = .user)).map (·.content) =
      (s.rounds ++ [round]).map Round.content := by
    rw [List.filter_append, List.map_append, hrest, List.map_append]
    rfl
  have hrequests : ∀ request ∈ s.requests ++
      [(userContent s.draft.inputText (history (s.draft.conversation ++ [⟨.user, round.content⟩])), s.rounds ++ [round])],
      InOrder ((request.2.flatMap Round.lines).map String.toList) request.1.toList := by
    intro request hmem
    rcases List.mem_append.mp hmem with hmem | hmem
    · exact h.requests request hmem
    · rw [List.mem_singleton] at hmem
      subst hmem
      rw [hconv]
      exact userContent_lines hturns s.draft.inputText
  cases outcome with
  | none => exact ⟨h.conversation, h.round, h.unanswered, h.asks, h.spec, hrequests⟩
  | some classified =>
    refine @Inv.classified value _ (rest ++ [⟨.user, round.content⟩]) (s.rounds ++ [round]) s.asks _ classified _ ?_ hturns ?_ ?_ h.asks ?_ hrequests
    · show s.draft.conversation ++ [_] = _
      rw [hconv]
      rfl
    · rw [List.length_append, ← h.round]
      rfl
    · rw [List.length_append, hasks]
      rfl
    · intro hopen
      have hcap : ¬ max 1 value.toNat ≤ s.draft.round + 1 := of_decide_eq_false hopen
      have hround := h.round
      rw [List.length_append, List.length_singleton]
      omega

theorem step_inv {value : Int} {s : St} (h : Inv value s) (e : Ev) : Inv value (step value s e) := by
  have hended : ∀ status : DraftStatus, status ≠ .drafting → Inv value { s with draft := { s.draft with status := status } } :=
    fun status hne => ⟨h.conversation, h.round, fun hdrafting => absurd hdrafting hne, h.asks, h.spec, h.requests⟩
  cases e with
  | answer owner now responses outcome =>
    simp only [step]
    split
    · exact h
    · rename_i op hasked
      exact take_inv h (asked_answer hasked).1 now responses outcome
  | confirm owner now committed =>
    simp only [step]
    split
    · exact h
    · split
      · exact hended .confirmed nofun
      · exact h
  | cancel owner now committed =>
    simp only [step]
    split
    · exact h
    · split
      · exact hended .abandoned nofun
      · exact h
  | sweep now =>
    simp only [step]
    split
    · exact hended .abandoned nofun
    · exact h

theorem run_inv {value : Int} {s : St} (h : Inv value s) (evs : List Ev) : Inv value (run value s evs) := by
  induction evs generalizing s with
  | nil => exact h
  | cons e evs ih => exact ih (step_inv h e)

/-! ## Every conversation -/

/-- An end of the draft, by a request that is let in or by its expiry. -/
inductive Ends (s : St) : Ev → DraftStatus → Prop where
  | confirmed (owner : String) (now : Timestamp) : Ends s (.confirm owner now true) .confirmed
  | cancelled (owner : String) (now : Timestamp) : Ends s (.cancel owner now true) .abandoned
  | expired (now : Timestamp) (h : Expired now s.draft) : Ends s (.sweep now) .abandoned

/-- What is asked, sent and kept. -/
structure Clarified (fromisoformat : String → Option Timestamp) (value : Int) (s : St) : Prop where
  /-- The user is asked no more often than that, and the draft is then ready, or over. -/
  bounded : (s.asks : Int) ≤ max 1 value
  settled : max 1 value ≤ s.rounds.length → s.draft.status ≠ .drafting
  /-- A draft that is open is one whose last questions have not been answered. -/
  unanswered : s.draft.status = .drafting → s.asks = s.rounds.length + 1
  /-- A ready draft asks no more, and stays one until it is confirmed, cancelled or expires. -/
  stays : s.draft.status = .ready → ∀ e, (step value s e).asks = s.asks ∧
    ((step value s e).draft.status = .ready ∨ Ends s e (step value s e).draft.status)
  /-- The classifier is sent every answer taken, with its question, in order. -/
  requests : ∀ request ∈ s.requests, InOrder ((request.2.flatMap Round.lines).map String.toList) request.1.toList
  /-- After a failure, what would run has the input and every answer, with its question. -/
  kept : s.failed = true → ∀ profiles extraTags, ∃ fields description,
    resolvedFields fromisoformat profiles s.draft.intake s.draft.ownerId extraTags = some fields ∧
      fields.description = some description ∧
      InOrder ((s.draft.inputText :: s.rounds.flatMap Round.lines).map String.toList) description.toList

theorem step_ready {value : Int} {s : St} (h : s.draft.status = .ready) (e : Ev) :
    (step value s e).asks = s.asks ∧
      ((step value s e).draft.status = .ready ∨ Ends s e (step value s e).draft.status) := by
  cases e with
  | answer owner now responses outcome =>
    simp only [step]
    split
    · exact ⟨rfl, .inl h⟩
    · rename_i op hasked
      have hopen := (asked_answer hasked).1
      rw [h] at hopen
      cases hopen
  | confirm owner now committed =>
    simp only [step]
    split
    · exact ⟨rfl, .inl h⟩
    · split
      · rename_i hcommitted
        rw [(Bool.and_eq_true_iff.mp hcommitted).2]
        exact ⟨rfl, .inr (.confirmed owner now)⟩
      · exact ⟨rfl, .inl h⟩
  | cancel owner now committed =>
    simp only [step]
    split
    · exact ⟨rfl, .inl h⟩
    · cases committed with
      | true => exact ⟨rfl, .inr (.cancelled owner now)⟩
      | false => exact ⟨rfl, .inl h⟩
  | sweep now =>
    simp only [step]
    split
    · rename_i hexpired
      exact ⟨rfl, .inr (.expired now hexpired)⟩
    · exact ⟨rfl, .inl h⟩

/-- With no spec, the input and the answers are what runs. -/
theorem resolved_empty (fromisoformat : String → Option Timestamp) (profiles : Profiles) (draft : Draft) (owner : String)
    (extraTags : List String) (h : draft.spec = []) :
    ∃ fields, resolvedFields fromisoformat profiles draft owner extraTags = some fields ∧
      fields.description = some (composedDescription draft) := by
  unfold resolvedFields
  rw [h]
  exact ⟨_, rfl, rfl⟩

theorem inv_clarified {fromisoformat : String → Option Timestamp} {value : Int} {s : St} (h : Inv value s) :
    Clarified fromisoformat value s where
  bounded := by
    have hasks := h.asks
    omega
  settled := by
    intro hrounds hdrafting
    have hlt := (h.unanswered hdrafting).2
    omega
  unanswered := fun hdrafting => (h.unanswered hdrafting).1
  stays := step_ready
  requests := h.requests
  kept := by
    intro hfailed profiles extraTags
    obtain ⟨fields, hfields, hdescription⟩ :=
      resolved_empty fromisoformat profiles s.draft.intake s.draft.ownerId extraTags (h.spec hfailed)
    refine ⟨fields, _, hfields, hdescription, ?_⟩
    obtain ⟨rest, hconv, hrest⟩ := h.conversation
    have hanswers : s.draft.intake.answers = s.rounds.map Round.content := by
      rw [← hrest]
      show answeredClarifications s.draft.conversation = _
      rw [hconv]
      rfl
    exact composed_lines hanswers

/-- However a draft is answered, and whatever the classifier makes of it. -/
theorem clarified (fromisoformat : String → Option Timestamp) (value : Int) (inputText owner : String) (now : Timestamp)
    (classified : Classified) (evs : List Ev) :
    Clarified fromisoformat value (run value (start inputText owner now classified) evs) :=
  inv_clarified (run_inv (start_inv value inputText owner now classified) evs)

end Errand.Server.Clarifications

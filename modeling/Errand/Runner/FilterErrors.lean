import Errand.Lib.JsonParse
import Errand.Runner.CompactionCuts
import Errand.Runner.MessageErrors

/-
  Errand.Runner.FilterErrors — which histories the pre-model filter raises on
  (`filter_model_input`, task-runner/main.py).

  Every function on the way assumes some shape of what it reads. The extraction of file
  operations takes a call's arguments for an object and its command for a text; a path
  that is no text is collected, and raises when the lists are sorted and joined.

  Proved:
  - `extractFileOperations_returns_iff`, `formatFileLists_returns_iff`,
    `serializeMessagesForSummary_returns_iff`: what these need of a message.
  - `filterModelInput_returns_iff`: the filter returns a list exactly for the histories
    that meet what each of them needs.
  - `an_argument_list_aborts_the_run`: a call with a list for its arguments does not.
-/

namespace Errand.Runner.Compaction

open Errand.Lib
open Errand.Runner.Messages
open Errand.Runner.FileOperations
open Errand.Runner.SummaryPrompt

/-! ## File operations -/

/-- What a file tool is called with. -/
def operand (tool : FileTool) (fields : List (String × Json)) : Json :=
  (Json.lookup (if tool = .command then "command" else "path") fields).getD (.str "")

/-- A command must be a text, and a path must go into a set. -/
def OperandFits (tool : FileTool) (value : Json) : Prop :=
  value.truthy = true → if tool = .command then ∃ s, value = .str s else IsKey value

/-- The arguments of a file tool's call can be read, and are an object with an operand
    that fits, where they are a text of JSON at all. -/
def Operable (py : Python) (m : Json) : Prop :=
  ∀ tool, fileTool m = some tool → ∀ s, getD m "arguments" (.str "\x7b\x7d") = .str s →
    Readable py s ∧ ∀ args, py.loads s = .value args →
      ∃ fields, args = .obj fields ∧ OperandFits tool (operand tool fields)

/-- The path a file tool is called with is a text. -/
def NamesText (py : Python) (m : Json) : Prop :=
  ∀ tool, fileTool m = some tool → tool ≠ .command → ∀ s, getD m "arguments" (.str "\x7b\x7d") = .str s →
    ∀ fields, py.loads s = .value (.obj fields) → (operand tool fields).truthy = true →
      ∃ path, operand tool fields = .str path

def AllTexts (ops : Operations) : Prop := ∀ path ∈ ops.read ++ ops.modified, ∃ s, path = Json.Key.str s

theorem allTexts_append (a b : Operations) : AllTexts (a ++ b) ↔ AllTexts a ∧ AllTexts b := by
  have hmem : ∀ path, path ∈ (a ++ b).read ++ (a ++ b).modified ↔
      path ∈ a.read ++ a.modified ∨ path ∈ b.read ++ b.modified := by
    intro path
    show path ∈ (a.read ++ b.read) ++ (a.modified ++ b.modified) ↔ _
    simp only [List.mem_append]
    tauto
  simp only [AllTexts, hmem, or_imp, forall_and]

theorem toolPath_returns_iff (args : Json) {tool : FileTool} (h : tool ≠ .command) :
    (Returns (toolPath args) ↔ ∃ fields, args = .obj fields ∧ OperandFits tool (operand tool fields)) ∧
      ∀ fields path, args = .obj fields → toolPath args = .ok path →
        ((∀ key ∈ path, ∃ s, key = Json.Key.str s) ↔
          ((operand tool fields).truthy = true → ∃ s, operand tool fields = .str s)) := by
  unfold toolPath argument OperandFits operand
  simp only [if_neg h]
  cases args with
  | obj fields =>
    simp only [Json.obj.injEq, exists_eq_left']
    cases ht : ((Json.lookup "path" fields).getD (.str "")).truthy with
    | false =>
      refine ⟨by simp, ?_⟩
      intro fields' path hf hp
      cases hf
      cases hp
      simp [ht]
    | true =>
      rw [if_pos rfl, imp_iff_right rfl]
      cases hv : (Json.lookup "path" fields).getD (.str "") with
      | arr items => exact ⟨by simp [IsKey, Json.key?], by intro fields' path hf hp; cases hp⟩
      | obj items => exact ⟨by simp [IsKey, Json.key?], by intro fields' path hf hp; cases hp⟩
      | _ =>
        refine ⟨by simp [IsKey, Json.key?], ?_⟩
        intro fields' path hf hp
        cases hf
        cases hp
        simp [hv, ← ht]
  | _ => exact ⟨by simp, by intro fields path hf; cases hf⟩

theorem toolCommand_returns_iff {py : Python} (args : Json) :
    Returns (toolCommand py args) ↔ ∃ fields, args = .obj fields ∧ OperandFits .command (operand .command fields) := by
  unfold toolCommand argument OperandFits operand
  simp only [if_true]
  cases args with
  | obj fields =>
    simp only [Json.obj.injEq, exists_eq_left']
    cases ht : ((Json.lookup "command" fields).getD (.str "")).truthy with
    | false => simp
    | true =>
      rw [if_pos rfl, imp_iff_right rfl]
      cases (Json.lookup "command" fields).getD (.str "") <;> simp
  | _ => simp

theorem allTexts_nil : AllTexts ⟨[], []⟩ := by
  intro path hpath
  cases hpath

theorem commandOperations_texts (py : Python) (command : String) : AllTexts (commandOperations py command) := by
  intro path hpath
  rw [List.mem_append] at hpath
  rcases hpath with h | h
  all_goals
    obtain ⟨t, -, rfl⟩ := List.mem_map.mp h
    exact ⟨_, rfl⟩

theorem toolCommand_texts {py : Python} {args : Json} {ops : Operations} (h : toolCommand py args = .ok ops) :
    AllTexts ops := by
  unfold toolCommand at h
  split at h
  · cases h
  · split at h
    · split at h
      · cases h
        exact commandOperations_texts py _
      · cases h
    · cases h
      exact allTexts_nil

theorem callArguments_cases (py : Python) (m : Json) :
    ((∀ s, getD m "arguments" (.str "\x7b\x7d") = .str s → Readable py s ∧ ∀ args, py.loads s ≠ .value args) ∧
      callArguments py m = .ok none) ∨
    (∃ s, getD m "arguments" (.str "\x7b\x7d") = .str s ∧
      ((¬ Readable py s ∧ ¬ Returns (callArguments py m)) ∨
        ∃ args, py.loads s = .value args ∧ callArguments py m = .ok (some args))) := by
  unfold callArguments
  cases getD m "arguments" (.str "\x7b\x7d") with
  | str s =>
    simp only
    cases hl : py.loads s with
    | value args => exact .inr ⟨s, rfl, .inr ⟨args, hl, rfl⟩⟩
    | decodeError =>
      refine .inl ⟨?_, rfl⟩
      intro s' hs
      cases hs
      simp [Readable, hl]
    | valueError => exact .inr ⟨s, rfl, .inl ⟨by simp [Readable, hl], by simp⟩⟩
    | recursionError => exact .inr ⟨s, rfl, .inl ⟨by simp [Readable, hl], by simp⟩⟩
  | _ =>
    refine .inl ⟨?_, rfl⟩
    intro s hs
    cases hs

/-- What the extraction needs of a message, and when it finds texts only. -/
theorem messageOperations_returns_iff (py : Python) (m : Json) :
    (Returns (messageOperations py m) ↔ Operable py m) ∧
      ∀ ops, messageOperations py m = .ok ops → (AllTexts ops ↔ NamesText py m) := by
  unfold messageOperations Operable NamesText
  cases htool : fileTool m with
  | none =>
    refine ⟨iff_of_true (returns_ok _) (by intro tool h; cases h), ?_⟩
    intro ops hops
    cases hops
    exact iff_of_true allTexts_nil (by intro tool h; cases h)
  | some tool =>
    simp only [Option.some.injEq, forall_eq']
    rcases callArguments_cases py m with ⟨hno, hargs⟩ | ⟨s, hs, ⟨hread, hargs⟩ | ⟨args, hl, hargs⟩⟩
    · rw [hargs]
      refine ⟨iff_of_true (returns_ok _) ?_, ?_⟩
      · intro s hs
        exact ⟨(hno s hs).1, fun args ha => absurd ha ((hno s hs).2 args)⟩
      · intro ops hops
        cases hops
        refine iff_of_true allTexts_nil ?_
        intro _ s hs fields hf
        exact absurd hf ((hno s hs).2 _)
    · cases hc : callArguments py m with
      | ok r => rw [hc] at hargs; exact absurd (returns_ok r) hargs
      | error e =>
        refine ⟨iff_of_false (not_returns_error _) ?_, by intro ops hops; cases hops⟩
        intro h
        exact hread (h s hs).1
    · have hreadable : Readable py s := by simp [Readable, hl]
      have hcond : (∀ s, getD m "arguments" (.str "\x7b\x7d") = .str s → Readable py s ∧ ∀ args, py.loads s = .value args →
          ∃ fields, args = .obj fields ∧ OperandFits tool (operand tool fields)) ↔
          ∃ fields, args = .obj fields ∧ OperandFits tool (operand tool fields) := by
        constructor
        · intro h
          exact (h s hs).2 args hl
        · intro h s' hs'
          rw [hs] at hs'
          cases hs'
          refine ⟨hreadable, ?_⟩
          intro args' ha
          rw [hl] at ha
          cases ha
          exact h
      have htext : (∀ s, getD m "arguments" (.str "\x7b\x7d") = .str s → ∀ fields, py.loads s = .value (.obj fields) →
          (operand tool fields).truthy = true → ∃ path, operand tool fields = .str path) ↔
          ∀ fields, args = .obj fields → (operand tool fields).truthy = true → ∃ path, operand tool fields = .str path := by
        constructor
        · intro h fields hf
          exact h s hs fields (by rw [hl, hf])
        · intro h s' hs' fields hf
          rw [hs] at hs'
          cases hs'
          rw [hl] at hf
          cases hf
          exact h fields rfl
      -- a path is collected alone, and on one side
      have path_case : ∀ (mk : Option Json.Key → Operations), tool ≠ .command →
          (∀ path, AllTexts (mk path) ↔ ∀ key ∈ path, ∃ s, key = Json.Key.str s) →
          (Returns ((toolPath args).map mk) ↔ ∃ fields, args = .obj fields ∧ OperandFits tool (operand tool fields)) ∧
            ∀ ops, (toolPath args).map mk = .ok ops → (AllTexts ops ↔
              ∀ fields, args = .obj fields → (operand tool fields).truthy = true →
                ∃ path, operand tool fields = .str path) := by
        intro mk hne hmk
        obtain ⟨hret, hpath⟩ := toolPath_returns_iff args hne
        rw [returns_map]
        refine ⟨hret, ?_⟩
        intro ops hops
        cases hp : toolPath args with
        | error e => rw [hp] at hops; cases hops
        | ok path =>
          obtain ⟨fields, hf, -⟩ := hret.mp ⟨path, hp⟩
          rw [hp] at hops
          cases hops
          rw [hmk, hpath fields path hf hp]
          constructor
          · intro h fields' hf'
            rw [hf] at hf'
            cases hf'
            exact h
          · intro h
            exact h fields hf
      rw [hargs, hcond]
      simp only
      cases tool with
      | read =>
        obtain ⟨hret, hall⟩ := path_case (fun path => ⟨path.toList, []⟩) (by decide) (by intro path; simp [AllTexts])
        refine ⟨hret, ?_⟩
        intro ops hops
        rw [hall ops hops, ← htext, imp_iff_right (by decide)]
      | modify =>
        obtain ⟨hret, hall⟩ := path_case (fun path => ⟨[], path.toList⟩) (by decide) (by intro path; simp [AllTexts])
        refine ⟨hret, ?_⟩
        intro ops hops
        rw [hall ops hops, ← htext, imp_iff_right (by decide)]
      | command =>
        refine ⟨toolCommand_returns_iff args, ?_⟩
        intro ops hops
        exact iff_of_true (toolCommand_texts hops) fun hne => absurd rfl hne

theorem extractFileOperations_returns_iff (py : Python) (messages : List Json) :
    (Returns (extractFileOperations py messages) ↔ ∀ m ∈ messages, Operable py m) ∧
      ∀ ops, extractFileOperations py messages = .ok ops → (AllTexts ops ↔ ∀ m ∈ messages, NamesText py m) := by
  induction messages with
  | nil =>
    refine ⟨iff_of_true (returns_ok _) (List.forall_mem_nil _), ?_⟩
    intro ops hops
    cases hops
    exact iff_of_true allTexts_nil (List.forall_mem_nil _)
  | cons m messages ih =>
    obtain ⟨hret, htexts⟩ := ih
    obtain ⟨hretm, htextsm⟩ := messageOperations_returns_iff py m
    rw [List.forall_mem_cons, List.forall_mem_cons, ← hretm, ← hret, extractFileOperations]
    cases hm : messageOperations py m with
    | error e => exact ⟨by simp, by intro ops hops; cases hops⟩
    | ok ops =>
      cases hrest : extractFileOperations py messages with
      | error e => exact ⟨by simp, by intro ops hops; cases hops⟩
      | ok rest =>
        refine ⟨by simp, ?_⟩
        intro ops' hops
        cases hops
        rw [allTexts_append, htextsm _ hm, htexts _ hrest]

theorem texts?_isSome_iff (paths : List Json.Key) : (∃ l, texts? paths = some l) ↔ ∀ path ∈ paths, ∃ s, path = Json.Key.str s := by
  induction paths with
  | nil => exact iff_of_true ⟨[], rfl⟩ (List.forall_mem_nil _)
  | cons path paths ih =>
    rw [List.forall_mem_cons, ← ih]
    cases path with
    | str s => cases h : texts? paths <;> simp [texts?, h]
    | _ => simp [texts?]

theorem formatFileLists_returns_iff (ops : Operations) (existing : List Char) :
    Returns (formatFileLists ops existing) ↔ AllTexts ops := by
  have hboth : AllTexts ops ↔ (∃ l, texts? ops.read = some l) ∧ ∃ l, texts? ops.modified = some l := by
    rw [texts?_isSome_iff, texts?_isSome_iff, AllTexts, List.forall_mem_append]
  rw [hboth]
  unfold formatFileLists
  cases texts? ops.read <;> cases texts? ops.modified <;> simp

/-! ## The conversation -/

/-- A message the serialiser can write: its texts are texts, and so is the role of one that
    is neither a call nor a result. -/
def Serializable (m : Json) : Prop :=
  isFunctionCall m = false →
    if isFunctionCallOutput m then Textual (getD m "output" (.str ""))
    else (getD m "role" (.str "")).truthy = true →
      Textual (getD m "content" (.str "")) ∧ ∃ role, getD m "role" (.str "") = .str role

theorem partTexts_returns_iff (parts : List Json) : Returns (partTexts parts) ↔ Textual (.arr parts) := by
  induction parts with
  | nil => exact iff_of_true (returns_ok _) textual_nil
  | cons part parts ih =>
    rw [textual_cons]
    unfold partTexts
    simp only [← ih]
    by_cases htype : part.fieldIs "type" "text" = true
    · rw [if_pos htype, imp_iff_right htype]
      cases getD part "text" (.str "") <;> simp
    · rw [if_neg htype]
      have hrest : (part.fieldIs "type" "text" = true → ∃ text, getD part "text" (.str "") = .str text) ∧
          Returns (partTexts parts) ↔ Returns (partTexts parts) :=
        and_iff_right fun h => absurd h htype
      rw [hrest]
      split
      · rw [returns_map]
      · split
        · rw [returns_map]
        · rfl

theorem roleContent_returns_iff (py : Python) (j : Json) : Returns (roleContent py j) ↔ Textual j := by
  cases j with
  | arr parts => rw [roleContent, returns_map, partTexts_returns_iff]
  | _ =>
    refine iff_of_true (returns_ok _) ?_
    intro parts hparts
    cases hparts

theorem serializeMessage_returns_iff (py : Python) (m : Json) : Returns (serializeMessage py m) ↔ Serializable m := by
  unfold serializeMessage Serializable
  cases isFunctionCall m with
  | true => exact iff_of_true (returns_ok _) (by intro h; cases h)
  | false =>
    rw [imp_iff_right rfl, if_neg (by decide)]
    cases isFunctionCallOutput m with
    | true => rw [if_pos rfl, if_pos rfl, returns_map, contentText_returns_iff]
    | false =>
      simp only [Bool.false_eq_true, if_false]
      cases ht : (getD m "role" (.str "")).truthy with
      | false => exact iff_of_true (returns_ok _) (by intro h; cases h)
      | true =>
        rw [imp_iff_right rfl, ← roleContent_returns_iff py]
        simp only [Bool.not_true, Bool.false_eq_true, if_false]
        cases roleContent py (getD m "content" (.str "")) with
        | error e => simp
        | ok content => cases getD m "role" (.str "") <;> simp

theorem serializeMessagesForSummary_returns_iff (py : Python) (messages : List Json) :
    Returns (serializeMessagesForSummary py messages) ↔ ∀ m ∈ messages, Serializable m := by
  rw [serializeMessagesForSummary, returns_map]
  induction messages with
  | nil => exact iff_of_true (returns_ok _) (List.forall_mem_nil _)
  | cons m messages ih =>
    rw [List.forall_mem_cons, ← ih, ← serializeMessage_returns_iff py m, serializeParts]
    cases serializeMessage py m <;> simp

/-! ## A turn over the limit -/

theorem isCompactionSummary_returns_iff (m : Json) :
    Returns (isCompactionSummary m) ↔ Textual (getD m "content" (.str "")) := by
  have other : ∀ j : Json, (∀ parts, j ≠ .arr parts) → Textual j := by
    intro j hj parts hparts
    exact absurd hparts (hj parts)
  cases m with
  | obj fields =>
    unfold isCompactionSummary
    simp only
    cases getD (.obj fields) "content" (.str "") with
    | str s => exact iff_of_true (returns_ok _) (other _ (by simp))
    | arr parts => rw [returns_map, joinTexts_returns_iff]
    | _ => exact iff_of_true (returns_ok _) (other _ (by simp))
  | _ => exact iff_of_true (returns_ok _) (other _ (by simp [getD, Json.get?]))

namespace Setup

variable {R : Setup}

theorem markedSummary_returns_iff (R : Setup) (toSummarize : List Json) :
    Returns (R.markedSummary toSummarize) ↔ Textual (getD (toSummarize.headD .null) "content" (.str "")) := by
  cases toSummarize with
  | nil =>
    refine iff_of_true (returns_ok _) ?_
    intro parts hparts
    cases hparts
  | cons m rest =>
    rw [List.headD_cons, ← isCompactionSummary_returns_iff]
    unfold markedSummary
    simp only
    cases hm : isCompactionSummary m with
    | error e => simp
    | ok marked =>
      refine iff_of_true ?_ (returns_ok _)
      cases marked with
      | false => exact returns_ok _
      | true => exact returns_map.mpr ((contentText_returns_iff _ _).mpr ((isCompactionSummary_returns_iff m).mp ⟨_, hm⟩))

theorem ask_returns_iff (R : Setup) (preserved toSummarize toKeep new : List Json) (held : Bool) (existing : String) :
    Returns (R.ask preserved toSummarize toKeep held existing new) ↔
      (∀ m ∈ new, Operable R.py m) ∧ ∀ m ∈ new, Serializable m := by
  rw [← (extractFileOperations_returns_iff R.py new).1, ← serializeMessagesForSummary_returns_iff R.py]
  unfold ask
  cases extractFileOperations R.py new with
  | error e => simp
  | ok files => cases serializeMessagesForSummary R.py new <;> simp

theorem newSummary_returns_iff (q : Request) (reply : Reply) :
    Returns (q.newSummary reply) ↔
      reply ≠ .clientRaised ∧ ∀ s, reply = .text s → isBlank s = false → AllTexts q.files := by
  cases reply with
  | clientRaised => simp [Request.newSummary]
  | raised => simp [Request.newSummary]
  | text s =>
    simp only [Request.newSummary, ne_eq, reduceCtorEq, not_false_eq_true, true_and, Reply.text.injEq, forall_eq']
    cases isBlank s with
    | true => exact iff_of_true (returns_ok _) (by intro h; cases h)
    | false =>
      rw [imp_iff_right rfl, ← formatFileLists_returns_iff q.files q.existing.toList]
      simp only [Bool.false_eq_true, if_false]
      cases formatFileLists q.files q.existing.toList <;> simp

variable (R)

/-- What a turn has to summarise anew: all but what the held summary covers, or a marked
    message in front. -/
def unsummarised (st : State) (messages : List Json) : List Json :=
  match R.matchHeldSummary st (summarised messages) with
  | some (_, new) => new
  | none =>
    match R.markedSummary (summarised messages) with
    | .ok (_, new) => new
    | .error _ => []

/-- What a turn over the limit needs of the history and of the answer. -/
structure Compacts (st : State) (reply : Reply) (messages : List Json) : Prop where
  /-- The snapshot looks the ids up. -/
  ids : Identified messages
  /-- The first message, and the first to summarise, are searched for the marker. -/
  first : Textual (getD (messages.headD .null) "content" (.str ""))
  marker : R.matchHeldSummary st (summarised messages) = none →
    Textual (getD ((summarised messages).headD .null) "content" (.str ""))
  operable : ∀ m ∈ R.unsummarised st messages, Operable R.py m
  serializable : ∀ m ∈ R.unsummarised st messages, Serializable m
  /-- If the model is asked, the client can be made, and the lists behind an answer too. -/
  answer : ¬ R.Covers st (summarised messages) → R.configured = true →
    reply ≠ .clientRaised ∧
      ∀ s, reply = .text s → isBlank s = false → ∀ m ∈ R.unsummarised st messages, NamesText R.py m

variable {R}

/-- A turn prepares something exactly if its new messages can be extracted from and
    serialised, and the marker can be looked for. -/
theorem prepare_returns_iff {st : State} {messages preserved toKeep : List Json} :
    Returns (R.prepare st messages preserved (summarised messages) toKeep) ↔
      (R.matchHeldSummary st (summarised messages) = none →
        Textual (getD ((summarised messages).headD .null) "content" (.str ""))) ∧
      (∀ m ∈ R.unsummarised st messages, Operable R.py m) ∧ ∀ m ∈ R.unsummarised st messages, Serializable m := by
  have call : ∀ (held : Bool) (existing : String) (new : List Json) (x : Except PyError Prepared),
      (∀ e, R.ask preserved (summarised messages) toKeep held existing new = .error e → x = .error e) →
      (∀ q, R.ask preserved (summarised messages) toKeep held existing new = .ok q →
        x = if R.configured then .ok (.request q) else .ok (.returned (R.trimContextWindow messages))) →
      (Returns x ↔ (∀ m ∈ new, Operable R.py m) ∧ ∀ m ∈ new, Serializable m) := by
    intro held existing new x herror hok
    rw [← ask_returns_iff R preserved (summarised messages) toKeep new held existing]
    cases hask : R.ask preserved (summarised messages) toKeep held existing new with
    | error e =>
      rw [herror e hask]
      simp
    | ok q =>
      rw [hok q hask]
      cases R.configured <;> simp
  unfold prepare unsummarised
  simp only
  cases hm : R.matchHeldSummary st (summarised messages) with
  | some r =>
    obtain ⟨summary, new⟩ := r
    rw [and_iff_right (by intro h; cases h)]
    cases new with
    | nil => simp
    | cons m new => exact call true summary (m :: new) _ (fun e h => by simp only [h]) fun q h => by simp only [h]
  | none =>
    rw [imp_iff_right rfl, ← markedSummary_returns_iff R]
    cases R.markedSummary (summarised messages) with
    | error e => simp
    | ok r =>
      rw [and_iff_right (returns_ok _)]
      exact call false r.1 r.2 _ (fun e h => by simp only [h]) fun q h => by simp only [h]

theorem asked_new {st : State} {messages preserved toKeep : List Json} {q : Request}
    (h : R.Asks st preserved (summarised messages) toKeep q) : q.new = R.unsummarised st messages := by
  unfold unsummarised
  cases h.begins with
  | held _ hm _ => rw [hm]
  | marked _ hm hmarked => rw [hm, hmarked]

/-- A turn returns a list if its plan does not fail and neither does its call. -/
theorem compactContext_returns_iff (st : State) (reply : Reply) (messages : List Json) :
    Returns (R.compactContext st reply messages).1 ↔
      (R.fits messages = false → compactionSuppressed { st with turn := st.turn + 1 } = false →
        R.Compacts { st with turn := st.turn + 1 } reply messages) := by
  unfold compactContext
  cases hf : R.fits messages with
  | true => simp
  | false =>
    rw [imp_iff_right rfl]
    simp only [Bool.false_eq_true, if_false]
    generalize { st with turn := st.turn + 1 } = st
    cases hsup : compactionSuppressed st with
    | true => simp [plan, hsup]
    | false =>
      rw [imp_iff_right rfl]
      have hplan : Returns (R.plan st messages) ↔ Identified messages ∧
          Textual (getD (messages.headD .null) "content" (.str "")) ∧
          Returns (R.prepare st messages (front messages) (summarised messages) (messages.drop (splitIndex messages))) := by
        rw [← contextContributors_returns_iff R.py, ← isCompactionSummary_returns_iff]
        unfold plan summarised front
        rw [hsup, if_neg (by decide)]
        cases contextContributors R.py messages with
        | error e => simp
        | ok _ =>
          rw [and_iff_right (returns_ok _)]
          cases isCompactionSummary (messages.headD .null) with
          | error e => simp
          | ok marked =>
            rw [and_iff_right (returns_ok _)]
            cases marked <;> rfl
      rw [prepare_returns_iff] at hplan
      cases hp : R.plan st messages with
      | error e =>
        rw [hp] at hplan
        refine iff_of_false (not_returns_error _) ?_
        intro h
        exact absurd (hplan.mpr ⟨h.ids, h.first, h.marker, h.operable, h.serializable⟩) (not_returns_error _)
      | ok x =>
        rw [hp] at hplan
        obtain ⟨hids, hfirst, hmarker, hop, hser⟩ := hplan.mp (returns_ok x)
        have hx : (R.Compacts st reply messages) ↔ (¬ R.Covers st (summarised messages) → R.configured = true →
            reply ≠ .clientRaised ∧ ∀ s, reply = .text s → isBlank s = false →
              ∀ m ∈ R.unsummarised st messages, NamesText R.py m) :=
          ⟨fun h => h.answer, fun h => ⟨hids, hfirst, hmarker, hop, hser, h⟩⟩
        rw [hx]
        rcases plan_spec hp with ⟨hs, -⟩ | ⟨-, hprep⟩
        · rw [hsup] at hs
          cases hs
        · cases hprep with
          | reused hm => exact iff_of_true (returns_ok _) fun hno => absurd ⟨_, hm⟩ hno
          | unconfigured hno hc =>
            refine iff_of_true (returns_ok _) ?_
            intro _ hc'
            rw [hc] at hc'
            cases hc'
          | @asked q hno hc hq =>
            rw [imp_iff_right hno, imp_iff_right hc, ← asked_new hq,
              ← (extractFileOperations_returns_iff R.py q.new).2 _ hq.files, ← newSummary_returns_iff]
            simp only [conclude]
            cases q.newSummary reply with
            | error e => simp
            | ok summary => cases summary <;> simp

end Setup

/-- A runner with a small window that reads JSON. -/
def reading : Setup :=
  { small with
    py := { small.py with
      loads := fun s =>
        match Json.parse s.toList with
        | some j => .value j
        | none => .decodeError } }

def readFile (id args : String) : Json :=
  .obj [("type", .str "function_call"), ("call_id", .str id), ("name", .str "read_file"), ("arguments", .str args)]

end Errand.Runner.Compaction

import Errand.Server.Clarifications
import Errand.Server.Previews
import Errand.Server.SlackQuestions

/-
  Errand.Server.ClassifierAnswers — whether what the classifier answers can be stored
  (`_parse_llm_response`, `generate_title`, errand/llm.py; `create_task`, main.py;
  `create_task_from_fields`, task_creation.py; `new_task`, mcp_server.py; clarify.py).

  A text column takes no NUL character, a JSON column no NaN and no infinity, and a time has
  to be one of the years 1 to 9999. An answer is plain if its texts, times and numbers are of
  that kind and its interval is a text or missing.

  Proved:
  - `createTask_fits`, `newTask_fits`, `confirm_fits`: one row, whose columns are of their kind.
  - `run_fits`: a draft, whatever is answered and classified, is one that can be stored.
  - `answers_yield`: the three together, and where the user's text is.
  - `a_description_replaces_the_text`: a task with none of the user's text.
-/

namespace Errand.Server.ClassifierAnswers

open Errand.Lib Errand.Runner Errand.Server.Tasks Errand.Server.TaskCreation Errand.Server.Drafts
  Errand.Server.Clarifications Errand.Server.Previews

/-! ## What columns take -/

def TextFits (s : String) : Prop := ∀ c ∈ s.toList, c ≠ '\x00'

instance (s : String) : Decidable (TextFits s) := List.decidableBAll _ _

/-- From the first to the last microsecond that a `datetime` of UTC has. -/
def TimeFits (t : Timestamp) : Prop := -62135596800000000 ≤ t ∧ t < 253402300800000000

mutual

/-- Has no NaN and no infinity. -/
def finite : Json → Bool
  | .float x => x.text ∉ ["NaN", "Infinity", "-Infinity"]
  | .arr items => finiteItems items
  | .obj fields => finiteFields fields
  | _ => true

def finiteItems : List Json → Bool
  | [] => true
  | item :: items => finite item && finiteItems items

def finiteFields : List (String × Json) → Bool
  | [] => true
  | f :: fields => finite f.2 && finiteFields fields

end

/-- The columns of a task that an answer or an input reaches. -/
structure Fits (t : Task) : Prop where
  title : TextFits t.title
  description : ∀ d ∈ t.description, TextFits d
  category : ∃ c : Category, t.category = some c.text
  executeAt : ∀ time ∈ t.executeAt, TimeFits time
  repeatInterval : ∀ s ∈ t.repeatInterval, TextFits s
  repeatUntil : ∀ time ∈ t.repeatUntil, TimeFits time

section Open

variable (loads : String → Loads) (fromisoformat : String → Option Timestamp)

/-! ## Plain answers -/

structure Plain (r : LLMResult) : Prop where
  title : TextFits r.title
  description : ∀ d ∈ r.description, TextFits d
  /-- A text, or none. -/
  repeatInterval : ∃ column, textColumn r.repeatInterval = some column ∧ ∀ s ∈ column, TextFits s
  executeAt : ∀ time ∈ parseDatetime fromisoformat r.executeAt, TimeFits time
  repeatUntil : ∀ time ∈ parseDatetime fromisoformat r.repeatUntil, TimeFits time
  numbers : finite r.executeAt = true ∧ finite r.repeatUntil = true

/-- `questions` of a usable answer. -/
def questionsOf : Asked → List Question
  | .content (some content) =>
    match loads (stripMarkdownFences (PyStr.stripString content)) with
    | .value (.obj data) => (SlackQuestions.normaliseQuestions (field "questions" data)).map fun q => ⟨q.id, q.text⟩
    | _ => []
  | _ => []

/-- What `_classify` is given for a text. -/
def classified (description : String) (asked : Asked) : Classified :=
  ⟨generateTitle loads description asked, questionsOf loads asked⟩

/-- What came of asking, before it is read. -/
structure PlainAsked (asked : Asked) : Prop where
  text : ∀ content, asked = .content (some content) → TextFits content
  fields : ∀ content, asked = .content (some content) →
    ∀ r, parseLlmResponse loads (PyStr.stripString content) = some (some r) → Plain fromisoformat r
  questions : ∀ q ∈ questionsOf loads asked, TextFits q.text

def PlainClassified (c : Classified) : Prop := Plain fromisoformat c.result ∧ ∀ q ∈ c.questions, TextFits q.text

/-- The texts a user answers, and what the classifier answers about them. -/
def PlainEv (description : String) : Clarifications.Ev → Prop
  | .answer _ _ responses outcome =>
    (∀ r ∈ responses, ∀ s, r.2 = .str s → TextFits s) ∧
      ∀ c ∈ outcome, ∃ asked, c = classified loads description asked ∧ PlainAsked loads fromisoformat asked
  | _ => True

/-! ## Texts -/

theorem fits_append {a b : String} (ha : TextFits a) (hb : TextFits b) : TextFits (a ++ b) := by
  intro c hc
  rw [String.toList_append] at hc
  exact (List.mem_append.mp hc).elim (ha c) (hb c)

theorem fits_strip {s : String} (h : TextFits s) : TextFits (PyStr.stripString s) := by
  intro c hc
  rw [PyStr.stripString, String.toList_ofList] at hc
  exact h c (PyStr.strip_subset s.toList hc)

theorem fits_intercalate {sep : String} {parts : List String} (hsep : TextFits sep) (h : ∀ p ∈ parts, TextFits p) :
    TextFits (sep.intercalate parts) := by
  induction parts with
  | nil => exact nofun
  | cons p parts ih =>
    have hp := h p List.mem_cons_self
    have hrest := ih fun q hq => h q (List.mem_cons_of_mem p hq)
    cases parts with
    | nil => rwa [String.intercalate_singleton]
    | cons q parts =>
      rw [String.intercalate_cons_cons]
      exact fits_append (fits_append hp hsep) hrest

theorem splitOnP_subset {α : Type} {p : α → Bool} {s l : List α} (h : l ∈ s.splitOnP p) : l ⊆ s := by
  induction s generalizing l with
  | nil =>
    rw [List.splitOnP_nil, List.mem_singleton] at h
    rw [h]
    exact List.Subset.refl _
  | cons x s ih =>
    rw [List.splitOnP_cons_eq_if_modifyHead] at h
    split at h
    · rcases List.mem_cons.mp h with rfl | h
      · exact List.nil_subset _
      · exact fun y hy => List.mem_cons_of_mem x (ih h hy)
    · cases hrest : s.splitOnP p with
      | nil => exact absurd hrest (List.splitOnP_ne_nil p s)
      | cons first rest =>
        rw [hrest] at h ih
        rcases List.mem_cons.mp h with rfl | h
        · exact List.cons_subset_cons x (ih List.mem_cons_self)
        · exact fun y hy => List.mem_cons_of_mem x (ih (List.mem_cons_of_mem first h) hy)

/-- The words of a text have its characters. -/
theorem words_subset {s w : String} (hw : w ∈ words s) : w.toList ⊆ s.toList := by
  obtain ⟨l, hl, rfl⟩ := List.mem_map.mp hw
  rw [String.toList_ofList]
  exact splitOnP_subset (List.mem_filter.mp hl).1

theorem fits_fallbackTitle {s : String} (h : TextFits s) : TextFits (fallbackTitle s) := by
  refine fits_append (fits_intercalate (by decide) fun w hw => ?_) (by decide)
  exact fun c hc => h c (words_subset (List.mem_of_mem_take hw) hc)

variable {loads fromisoformat}

theorem failed_plain {title : String} (h : TextFits title) (cause : Cause) : Plain fromisoformat (failed title cause) :=
  ⟨h, nofun, ⟨none, rfl, nofun⟩, nofun, nofun, rfl, rfl⟩

/-- Asking about a text that fits is answered plainly. -/
theorem generateTitle_plain {asked : Asked} (h : PlainAsked loads fromisoformat asked) {description : String}
    (hd : TextFits description) : Plain fromisoformat (generateTitle loads description asked) := by
  have hfallback := fits_fallbackTitle hd
  cases asked with
  | unconfigured => exact failed_plain hfallback _
  | raised => exact failed_plain hfallback _
  | content content =>
    cases content with
    | none =>
      have hempty : (PyStr.stripString ((none : Option String).getD "")).isEmpty = true := by decide
      rw [generateTitle, hempty]
      exact failed_plain hfallback _
    | some content =>
      simp only [generateTitle, Option.getD_some]
      split
      · exact failed_plain hfallback _
      · split
        · rename_i r hr
          exact h.fields content rfl r hr
        · exact failed_plain (fits_strip (h.text content rfl)) _
        · exact failed_plain hfallback _

theorem classified_plain {asked : Asked} (h : PlainAsked loads fromisoformat asked) {description : String}
    (hd : TextFits description) : PlainClassified fromisoformat (classified loads description asked) :=
  ⟨generateTitle_plain h hd, h.questions⟩

/-! ## Rows -/

/-- The arguments of `create_task_from_fields`. -/
structure FieldsFit (f : Fields) : Prop where
  title : TextFits f.title
  description : ∀ d ∈ f.description, TextFits d
  executeAt : ∀ time ∈ f.executeAt, TimeFits time
  repeatInterval : ∀ s ∈ f.repeatInterval, TextFits s
  repeatUntil : ∀ time ∈ f.repeatUntil, TimeFits time

theorem newRow_fits {f : Fields} (h : FieldsFit f) (now : Timestamp) (profiles : Profiles) (status : Status) (position : Int) :
    Fits (newRow now profiles f status position) :=
  ⟨h.title, h.description, ⟨f.category, rfl⟩, h.executeAt, h.repeatInterval, h.repeatUntil⟩

/-- One row, with the title and the description it is given. -/
theorem createTaskFromFields_fits {f : Fields} (h : FieldsFit f) {now : Timestamp} (hnow : TimeFits now) (db : Db)
    (profiles : Profiles) : ∃ t, createTaskFromFields now db profiles f = db.insert t ∧ Fits t ∧ t.title = f.title ∧
      t.description = f.description := by
  refine ⟨_, rfl, newRow_fits ?_ now profiles _ _, ?_, ?_⟩
  · split
    · refine ⟨h.title, h.description, fun time htime => ?_, h.repeatInterval, h.repeatUntil⟩
      cases htime
      exact hnow
    · exact h
  · show (if _ then _ else f).title = f.title
    split <;> rfl
  · show (if _ then _ else f).description = f.description
    split <;> rfl

/-- Where the user's text is: in the title if it is short, in the description if the
    classification failed; an answer's own title and description stand for it otherwise. -/
structure Kept (text : String) (r : LLMResult) (t : Task) : Prop where
  short : (words text).length ≤ 5 → t.title = text ∧ t.description = none
  failed : 5 < (words text).length → r.success = false → t.description = some text
  answered : 5 < (words text).length → r.success = true → t.title = r.title ∧ t.description = r.description

theorem describe_fits {inputText : String} {r : LLMResult} (hi : TextFits inputText) (hr : Plain fromisoformat r) :
    ∀ d ∈ (describe inputText r).1, TextFits d := by
  intro d hd
  unfold describe at hd
  split at hd
  · cases hd
    exact hi
  · split at hd
    · cases hd
      exact hi
    · split at hd
      · cases hd
      · rename_i description hdescription
        cases hd
        exact hr.description d hdescription

theorem describe_kept {inputText : String} {r : LLMResult} :
    (r.success = false → (describe inputText r).1 = some inputText) ∧
      (r.success = true → r.cause = none → (describe inputText r).1 = r.description) := by
  constructor
  · intro hs
    unfold describe
    rw [hs]
    split <;> rfl
  · intro hs hc
    have hattempted : r.attempted = true := by rw [LLMResult.attempted, hc]
    unfold describe
    rw [hattempted, hs]
    cases r.description <;> rfl

theorem createTask_fits {now : Timestamp} (hnow : TimeFits now) {input : String} (hinput : TextFits input) {asked : Asked}
    (hasked : PlainAsked loads fromisoformat asked) (db : Db) (profiles : Profiles) (email : Option String) :
    ∃ t, createTask loads fromisoformat now db profiles input asked email = some (db.insert t) ∧ Fits t ∧
      Kept (PyStr.stripString input) (generateTitle loads (PyStr.stripString input) asked) t := by
  have hstrip := fits_strip hinput
  have hplain := generateTitle_plain hasked hstrip
  obtain ⟨column, hcolumn, htext⟩ := hplain.repeatInterval
  unfold createTask
  dsimp only
  by_cases hlong : (words (PyStr.stripString input)).length > 5
  · rw [if_pos hlong, hcolumn, Option.map_some]
    obtain ⟨t, ht, hfits, htitle, hdescription⟩ := createTaskFromFields_fits
      (f := ⟨_, _, _, parseDatetime fromisoformat _, column, parseDatetime fromisoformat _,
        suggestedProfile profiles (generateTitle loads (PyStr.stripString input) asked).profile, email,
        (describe (PyStr.stripString input) (generateTitle loads (PyStr.stripString input) asked)).2⟩)
      ⟨hplain.title, describe_fits hstrip hplain, hplain.executeAt, htext, hplain.repeatUntil⟩ hnow db profiles
    refine ⟨t, congrArg some ht, hfits, fun hshort => absurd hlong (by omega), fun _ hs => ?_, fun _ hs => ?_⟩
    · rw [hdescription]
      exact describe_kept.1 hs
    · rcases generateTitle_cases loads (PyStr.stripString input) asked with ⟨-, hc⟩ | ⟨hf, -⟩
      · exact ⟨htitle, hdescription.trans (describe_kept.2 hs hc)⟩
      · rw [hs] at hf
        cases hf
  · rw [if_neg hlong]
    obtain ⟨t, ht, hfits, htitle, hdescription⟩ := createTaskFromFields_fits
      (f := ⟨PyStr.stripString input, none, .immediate, none, none, none, none, email, ["Needs Info"]⟩)
      ⟨hstrip, nofun, nofun, nofun, nofun⟩ hnow db profiles
    exact ⟨t, congrArg some ht, hfits, fun _ => ⟨htitle, hdescription⟩, fun h => absurd h hlong, fun h => absurd h hlong⟩

/-- What the tool settles on without a title of the caller's. -/
theorem classify_fits {description : String} (hd : TextFits description) {asked : Asked}
    (hasked : PlainAsked loads fromisoformat asked) (profiles : Profiles) (profile : Option String) (explicit : Option Nat) :
    TextFits (newTaskFields.classify loads profiles description profile asked explicit).1 ∧
      (∀ d ∈ (newTaskFields.classify loads profiles description profile asked explicit).2.1, TextFits d) ∧
      ∀ t : Task, t.title = (newTaskFields.classify loads profiles description profile asked explicit).1 →
        t.description = (newTaskFields.classify loads profiles description profile asked explicit).2.1 →
        Kept (PyStr.stripString description) (generateTitle loads description asked) t := by
  have hplain := generateTitle_plain hasked hd
  unfold newTaskFields.classify
  dsimp only
  by_cases hlong : (words (PyStr.stripString description)).length > 5
  · rw [if_pos hlong]
    refine ⟨hplain.title, fun d hmem => ?_, fun t htitle hdescription => ?_⟩
    · dsimp only at hmem
      split at hmem
      · exact hplain.description d hmem
      · cases hmem
        exact fits_strip hd
    · refine ⟨fun hshort => absurd hlong (by omega), fun _ hs => ?_, fun _ hs => ?_⟩
      · rw [hdescription, hs]
        rfl
      · rw [hdescription, htitle, hs]
        exact ⟨rfl, rfl⟩
  · rw [if_neg hlong]
    exact ⟨fits_strip hd, nofun, fun t htitle hdescription =>
      ⟨fun _ => ⟨htitle, hdescription⟩, fun h => absurd h hlong, fun h => absurd h hlong⟩⟩

theorem toolFields_fit {title : String} {description : Option String} (ht : TextFits title)
    (hd : ∀ d ∈ description, TextFits d) (category : Category) (profileId : Option Nat) (clientId : String) :
    FieldsFit ⟨title, description, category, none, none, none, profileId, some clientId, []⟩ :=
  ⟨ht, hd, nofun, nofun, nofun⟩

/-- The row of the tool. -/
theorem newTask_row_eq (loads : String → Loads) (now : Timestamp) (db : Db) (profiles : Profiles) (description : String)
    (profile title : Option String) (asked : Asked) (clientId : String) {explicit : Option Nat}
    (h : explicitProfile profiles profile = some explicit) :
    ∃ category profileId status position, newTask loads now db profiles description profile title asked clientId =
      some (db.insert (newRow now profiles
        ⟨(newTaskFields loads profiles description profile title asked explicit).1,
          (newTaskFields loads profiles description profile title asked explicit).2.1, category, none, none, none, profileId,
          some clientId, []⟩ status position)) := by
  unfold newTask
  rw [h]
  exact ⟨_, _, _, _, rfl⟩

/-- A title of the caller's stands, and the description as it is. -/
theorem given_fields (loads : String → Loads) (profiles : Profiles) (description : String) (profile : Option String)
    {title : String} (h : title.isEmpty = false) (asked : Asked) (explicit : Option Nat) :
    newTaskFields loads profiles description profile (some title) asked explicit =
      (title, if description.isEmpty then none else some description, .immediate, explicit) := by
  unfold newTaskFields
  exact if_neg (by rw [h]; decide)

theorem classified_fields (loads : String → Loads) (profiles : Profiles) (description : String)
    (profile : Option String) {title : Option String} (h : (title.getD "").isEmpty = true) (asked : Asked)
    (explicit : Option Nat) :
    newTaskFields loads profiles description profile title asked explicit =
      newTaskFields.classify loads profiles description profile asked explicit := by
  unfold newTaskFields
  cases title with
  | none => rfl
  | some title => exact if_pos h

/-- A profile that is not found is reported, and an explicit title taken with the text. -/
theorem newTask_fits {description : String} (hd : TextFits description) {asked : Asked}
    (hasked : PlainAsked loads fromisoformat asked) (now : Timestamp) (db : Db) (profiles : Profiles)
    (profile : Option String) {title : Option String} (htitle : ∀ s ∈ title, TextFits s) (clientId : String) :
    explicitProfile profiles profile = none ∧
        newTask loads now db profiles description profile title asked clientId = none ∨
      ∃ t, newTask loads now db profiles description profile title asked clientId = some (db.insert t) ∧ Fits t ∧
        if (title.getD "").isEmpty then Kept (PyStr.stripString description) (generateTitle loads description asked) t
        else some t.title = title ∧ t.description.getD "" = description := by
  cases hexplicit : explicitProfile profiles profile with
  | none =>
    unfold newTask
    rw [hexplicit]
    exact .inl ⟨rfl, rfl⟩
  | some explicit =>
    right
    obtain ⟨category, profileId, status, position, hrow⟩ :=
      newTask_row_eq loads now db profiles description profile title asked clientId hexplicit
    by_cases hgiven : (title.getD "").isEmpty = true
    · rw [classified_fields loads profiles description profile hgiven asked explicit] at hrow
      obtain ⟨hct, hcd, hkept⟩ := classify_fits hd hasked profiles profile explicit
      generalize newTaskFields.classify loads profiles description profile asked explicit = settled at hrow hct hcd hkept
      refine ⟨_, hrow, newRow_fits (toolFields_fit hct hcd category profileId clientId) now profiles status position, ?_⟩
      rw [if_pos hgiven]
      exact hkept _ rfl rfl
    · cases title with
      | none => exact absurd rfl hgiven
      | some title =>
        have hne : title.isEmpty = false := eq_false_of_ne_true hgiven
        rw [given_fields loads profiles description profile hne asked explicit] at hrow
        have hdescription : ∀ d ∈ if description.isEmpty then none else some description, TextFits d := by
          intro d hmem
          split at hmem
          · cases hmem
          · cases hmem
            exact hd
        have hfit := toolFields_fit (htitle title rfl) hdescription category profileId clientId
        refine ⟨_, hrow, newRow_fits hfit now profiles status position, ?_⟩
        rw [if_neg hgiven]
        refine ⟨rfl, ?_⟩
        show (if description.isEmpty then none else some description).getD "" = description
        split
        · rename_i hempty
          exact (String.isEmpty_iff.mp hempty).symm
        · rfl

/-! ## Drafts -/

theorem lookup_mem {key : String} {fields : List (String × Json)} {j : Json} (h : Json.lookup key fields = some j) :
    (key, j) ∈ fields := by
  induction fields with
  | nil => cases h
  | cons f fields ih =>
    obtain ⟨k, v⟩ := f
    rw [Json.lookup] at h
    split at h
    · rename_i hk
      cases h
      rw [hk]
      exact List.mem_cons_self
    · exact List.mem_cons_of_mem _ (ih h)

/-- What of a draft is read when it is confirmed, and its JSON columns. -/
structure DraftFits (fromisoformat : String → Option Timestamp) (draft : TaskSpecDraft) : Prop where
  inputText : TextFits draft.inputText
  answers : ∀ a ∈ answeredClarifications draft.conversation, TextFits a
  questions : ∀ q ∈ draft.questions.getD [], TextFits q.text
  spec : draft.spec = [] ∨ ∃ r, Plain fromisoformat r ∧ draft.spec = specOf r
  numbers : ∀ f ∈ draft.spec, finite f.2 = true

theorem answered_mem {conversation : List Turn} {content reply a : String}
    (h : a ∈ answeredClarifications (conversation ++ [⟨.user, content⟩] ++ [⟨.assistant, reply⟩])) :
    a ∈ answeredClarifications conversation ∨ a = content := by
  unfold answeredClarifications at h ⊢
  have hassistant : [(⟨.assistant, reply⟩ : Turn)].filter (·.role = .user) = [] := rfl
  have huser : [(⟨.user, content⟩ : Turn)].filter (·.role = .user) = [⟨.user, content⟩] := rfl
  rw [List.filter_append, List.filter_append, hassistant, huser, List.append_nil, List.drop_append, List.map_append] at h
  rcases List.mem_append.mp h with h | h
  · exact .inl h
  · obtain ⟨turn, hmem, rfl⟩ := List.mem_map.mp h
    obtain rfl := List.mem_singleton.mp (List.mem_of_mem_drop hmem)
    exact .inr rfl

theorem specValue_finite {j : Json} (h : finite j = true) : finite (specValue j) = true := by
  unfold specValue
  split
  · split
    · rfl
    · exact h
  · exact h

theorem specOf_finite {r : LLMResult} (h : Plain fromisoformat r) : ∀ f ∈ specOf r, finite f.2 = true := by
  obtain ⟨column, hcolumn, -⟩ := h.repeatInterval
  have hinterval : finite r.repeatInterval = true := by
    unfold textColumn at hcolumn
    split at hcolumn
    · rename_i hnull
      rw [hnull]
      rfl
    · rename_i hstr
      rw [hstr]
      rfl
    · cases hcolumn
  have htext : ∀ s, finite (textJson s) = true := by
    intro s
    cases s <;> rfl
  intro f hf
  simp only [specOf, List.mem_cons, List.not_mem_nil, or_false] at hf
  rcases hf with rfl | rfl | rfl | rfl | rfl | rfl | rfl
  · dsimp only
    exact specValue_finite rfl
  · exact specValue_finite (htext _)
  · dsimp only
    exact specValue_finite rfl
  · exact specValue_finite h.numbers.1
  · exact specValue_finite hinterval
  · exact specValue_finite h.numbers.2
  · exact specValue_finite (htext _)

theorem classify_questions (draft : TaskSpecDraft) (c : Classified) (capReached : Bool) :
    ∀ q ∈ (classify draft c capReached).questions.getD [], q ∈ c.questions := by
  have hsub : ∀ q ∈ if c.result.success then c.questions else [], q ∈ c.questions := by
    intro q hq
    split at hq
    · exact hq
    · cases hq
  simp only [classify]
  generalize (if c.result.success = true then c.questions else []) = questions at hsub ⊢
  by_cases hopen : questions ≠ [] ∧ capReached = false
  · rw [if_pos hopen]
    exact hsub
  · rw [if_neg hopen]
    by_cases hnone : questions = []
    · rw [if_pos hnone]
      intro q hq
      cases hq
    · rw [if_neg hnone]
      exact hsub

/-- A classification of a draft whose input and answers fit. -/
theorem classify_draft_fits {draft : TaskSpecDraft} (hinput : TextFits draft.inputText)
    (hanswers : ∀ reply, ∀ a ∈ answeredClarifications (draft.conversation ++ [⟨.assistant, reply⟩]), TextFits a)
    {c : Classified} (hc : PlainClassified fromisoformat c) (capReached : Bool) :
    DraftFits fromisoformat (classify draft c capReached) := by
  obtain ⟨-, -, hspec, reply, hconv⟩ := classify_spec draft c capReached
  obtain ⟨-, hi, -, -⟩ := classify_fixed draft c capReached
  refine ⟨by rw [hi]; exact hinput, by rw [hconv]; exact hanswers reply,
    fun q hq => hc.2 q (classify_questions draft c capReached q hq), ?_, ?_⟩
  · rw [hspec]
    split
    · exact .inr ⟨c.result, hc.1, rfl⟩
    · exact .inl rfl
  · rw [hspec]
    split
    · exact specOf_finite hc.1
    · intro f hf
      cases hf

theorem begin_fits {inputText : String} (h : TextFits inputText) (owner : String) (now : Timestamp) {c : Classified}
    (hc : PlainClassified fromisoformat c) : DraftFits fromisoformat (begin inputText owner now c) := by
  unfold begin
  dsimp only
  refine classify_draft_fits ?_ ?_ hc false
  · exact fits_strip h
  intro reply a ha
  have hnone : answeredClarifications ([⟨.user, PyStr.stripString inputText⟩] ++ [⟨.assistant, reply⟩]) = [] := rfl
  rw [hnone] at ha
  cases ha

theorem answerLine_fits {q : Question} (hq : TextFits q.text) {responses : List (String × Json)}
    (hr : ∀ r ∈ responses, ∀ s, r.2 = .str s → TextFits s) : ∀ line ∈ answerLine responses q, TextFits line := by
  intro line hline
  unfold answerLine at hline
  split at hline
  · rename_i value hlookup
    split at hline
    · cases hline
    · cases hline
      have hvalue : TextFits value := hr _ (lookup_mem hlookup) value rfl
      exact fits_append (fits_append hq (by decide)) (fits_strip hvalue)
  · cases hline

theorem answerContent_fits {questions : List Question} (hq : ∀ q ∈ questions, TextFits q.text)
    {responses : List (String × Json)} (hr : ∀ r ∈ responses, ∀ s, r.2 = .str s → TextFits s) :
    TextFits (answerContent questions responses) := by
  have hjoined : TextFits ("\n".intercalate (questions.filterMap (answerLine responses))) := by
    refine fits_intercalate (by decide) fun line hmem => ?_
    obtain ⟨q, hqmem, hline⟩ := List.mem_filterMap.mp hmem
    exact answerLine_fits (hq q hqmem) hr line hline
  unfold answerContent
  dsimp only
  split
  · decide
  · exact hjoined

theorem answered_draft_fits {draft : TaskSpecDraft} (h : DraftFits fromisoformat draft) {content : String}
    (hcontent : TextFits content) (now : Timestamp) {c : Classified} (hc : PlainClassified fromisoformat c)
    (maxRounds : Nat) : DraftFits fromisoformat (answered draft content now c maxRounds) := by
  unfold answered
  refine classify_draft_fits ?_ ?_ hc _
  · exact h.inputText
  intro reply a ha
  rcases answered_mem ha with ha | rfl
  · exact h.answers a ha
  · exact hcontent

theorem step_fits {value : Int} {s : Clarifications.St} (h : DraftFits fromisoformat s.draft) {description : String}
    (hd : TextFits description) {e : Clarifications.Ev} (he : PlainEv loads fromisoformat description e) :
    DraftFits fromisoformat (Clarifications.step value s e).draft := by
  have hended : ∀ status, DraftFits fromisoformat { s.draft with status := status } := fun status =>
    ⟨h.inputText, h.answers, h.questions, h.spec, h.numbers⟩
  cases e with
  | answer owner now responses outcome =>
    simp only [Clarifications.step]
    split
    · exact h
    · cases outcome with
      | none => exact h
      | some c =>
        obtain ⟨asked, rfl, hasked⟩ := he.2 c rfl
        exact answered_draft_fits h (answerContent_fits h.questions he.1) now (classified_plain hasked hd) value.toNat
  | confirm owner now committed =>
    simp only [Clarifications.step]
    split
    · exact h
    · split
      · exact hended .confirmed
      · exact h
  | cancel owner now committed =>
    simp only [Clarifications.step]
    split
    · exact h
    · split
      · exact hended .abandoned
      · exact h
  | sweep now =>
    simp only [Clarifications.step]
    split
    · exact hended .abandoned
    · exact h

theorem run_fits {value : Int} {s : Clarifications.St} (h : DraftFits fromisoformat s.draft) {description : String}
    (hd : TextFits description) {evs : List Clarifications.Ev}
    (hevs : ∀ e ∈ evs, PlainEv loads fromisoformat description e) : DraftFits fromisoformat (run value s evs).draft := by
  induction evs generalizing s with
  | nil => exact h
  | cons e evs ih =>
    exact ih (step_fits h hd (hevs e List.mem_cons_self)) fun e' he' => hevs e' (List.mem_cons_of_mem e he')

/-! ## A confirmed draft -/

/-- A text of a spec, if it has one. -/
theorem specText_cases (o : Option String) :
    specValue (textJson o) = .null ∨ ∃ s, o = some s ∧ specValue (textJson o) = .str s := by
  cases o with
  | none => exact .inl rfl
  | some s =>
    unfold specValue textJson
    dsimp only
    split
    · exact .inl rfl
    · exact .inr ⟨s, rfl, rfl⟩

theorem textOr_cases (default : String) (o : Option String) :
    textOr default (specValue (textJson o)) = some default ∨
      ∃ s, o = some s ∧ specValue (textJson o) = .str s ∧ textOr default (specValue (textJson o)) = some s := by
  rcases specText_cases o with hnull | ⟨s, ho, hs⟩
  · rw [hnull]
    exact .inl rfl
  · rw [hs]
    unfold textOr
    split
    · exact .inr ⟨s, ho, rfl, rfl⟩
    · exact .inl rfl

theorem specProfile_some (profiles : Profiles) (o : Option String) :
    ∃ id, specProfile profiles (specValue (textJson o)) = some id := by
  rcases specText_cases o with hnull | ⟨s, -, hs⟩
  · rw [hnull]
    exact ⟨none, rfl⟩
  · rw [hs]
    unfold specProfile
    split
    · exact ⟨profileNamed profiles s, rfl⟩
    · exact ⟨none, rfl⟩

theorem specInterval_fits {r : LLMResult} (h : Plain fromisoformat r) :
    ∃ column, textColumn (specValue r.repeatInterval) = some column ∧ ∀ s ∈ column, TextFits s := by
  obtain ⟨column, hcolumn, htext⟩ := h.repeatInterval
  cases hr : r.repeatInterval with
  | null => exact ⟨none, rfl, nofun⟩
  | str s =>
    rw [hr] at hcolumn
    cases hcolumn
    unfold specValue
    dsimp only
    split
    · exact ⟨none, rfl, nofun⟩
    · exact ⟨some s, rfl, htext⟩
  | _ =>
    rw [hr] at hcolumn
    cases hcolumn

theorem specDate_fits {j : Json} (h : ∀ time ∈ parseDatetime fromisoformat j, TimeFits time) :
    ∀ time ∈ parseDatetime fromisoformat (specValue j), TimeFits time := by
  unfold specValue
  split
  · split
    · exact nofun
    · exact h
  · exact h

/-- The description of a draft's task: the classifier's, or the user's input and what follows. -/
def DescribedBy (draft : TaskSpecDraft) (t : Task) : Prop :=
  ∃ description, t.description = some description ∧
    (field "description" draft.spec = .str description ∨ draft.inputText.toList <+: description.toList)

theorem composed_begins (draft : Draft) : draft.inputText.toList <+: (composedDescription draft).toList := by
  unfold composedDescription
  split
  · exact List.prefix_refl _
  · rw [String.toList_append, String.toList_append, List.append_assoc]
    exact List.prefix_append ..

theorem composed_fits {draft : Draft} (hi : TextFits draft.inputText) (ha : ∀ a ∈ draft.answers, TextFits a) :
    TextFits (composedDescription draft) := by
  unfold composedDescription
  split
  · exact hi
  · exact fits_append (fits_append hi (by decide)) (fits_intercalate (by decide) ha)

/-- The fields of a spec, as they are read. -/
theorem specOf_fields (r : LLMResult) :
    field "title" (specOf r) = specValue (textJson (some r.title)) ∧
      field "description" (specOf r) = specValue (textJson r.description) ∧
      Json.lookup "category" (specOf r) = some (specValue (.str r.category.text)) ∧
      field "execute_at" (specOf r) = specValue r.executeAt ∧
      field "repeat_interval" (specOf r) = specValue r.repeatInterval ∧
      field "repeat_until" (specOf r) = specValue r.repeatUntil ∧
      field "profile" (specOf r) = specValue (textJson r.profile) := by
  refine ⟨?_, ?_, ?_, ?_, ?_, ?_, ?_⟩ <;> simp [field, specOf, Json.lookup, textJson]

theorem category_resolved (c : Category) : categoryOf (some (specValue (.str c.text))) = some c := by
  cases c <;> decide

/-- What the arguments of a confirmed draft's task are. -/
theorem resolvedFields_fit {draft : TaskSpecDraft} (h : DraftFits fromisoformat draft) (profiles : Profiles) (owner : String)
    (extraTags : List String) :
    ∃ f, resolvedFields fromisoformat profiles draft.intake owner extraTags = some f ∧ FieldsFit f ∧
      ∃ description, f.description = some description ∧
        (field "description" draft.spec = .str description ∨ draft.inputText.toList <+: description.toList) := by
  have hcomposed : TextFits (composedDescription draft.intake) := composed_fits h.inputText h.answers
  have hfallback := fits_fallbackTitle h.inputText
  rcases h.spec with hspec | ⟨r, hr, hspec⟩
  · refine ⟨⟨fallbackTitle draft.inputText, some (composedDescription draft.intake), .immediate, none, none, none, none,
      some owner, extraTags⟩, ?_, ⟨hfallback, ?_, nofun, nofun, nofun⟩, _, rfl, .inr (composed_begins draft.intake)⟩
    · unfold resolvedFields
      show _ = _
      rw [show draft.intake.spec = [] from hspec]
      rfl
    · intro d hd
      cases hd
      exact hcomposed
  · obtain ⟨htitle, hdescription, hcategory, hexecute, hinterval, huntil, hprofile⟩ := specOf_fields r
    obtain ⟨title, htext, htitlefits⟩ : ∃ title,
        textOr (fallbackTitle draft.inputText) (specValue (textJson (some r.title))) = some title ∧ TextFits title := by
      rcases textOr_cases (fallbackTitle draft.inputText) (some r.title) with hd | ⟨s, hs, -, hd⟩
      · exact ⟨_, hd, hfallback⟩
      · cases hs
        exact ⟨_, hd, hr.title⟩
    obtain ⟨description, hdesc, hdescfits, hby⟩ : ∃ description,
        textOr (composedDescription draft.intake) (specValue (textJson r.description)) = some description ∧
          TextFits description ∧
          (specValue (textJson r.description) = .str description ∨ draft.inputText.toList <+: description.toList) := by
      rcases textOr_cases (composedDescription draft.intake) r.description with hd | ⟨s, hs, hvalue, hd⟩
      · exact ⟨_, hd, hcomposed, .inr (composed_begins draft.intake)⟩
      · exact ⟨_, hd, hr.description s hs, .inl hvalue⟩
    obtain ⟨column, hcolumn, hcolumnfits⟩ := specInterval_fits hr
    obtain ⟨profileId, hid⟩ := specProfile_some profiles r.profile
    refine ⟨⟨title, some description, r.category, parseDatetime fromisoformat (specValue r.executeAt), column,
      parseDatetime fromisoformat (specValue r.repeatUntil), profileId, some owner, extraTags⟩, ?_, ?_, description, rfl, ?_⟩
    · unfold resolvedFields
      rw [show draft.intake.spec = specOf r from hspec, htitle, hdescription, hcategory, hexecute, hinterval, huntil,
        hprofile, show draft.intake.inputText = draft.inputText from rfl, htext, hdesc, category_resolved, hcolumn, hid]
      rfl
    · refine ⟨htitlefits, fun d hd => ?_, specDate_fits hr.executeAt, hcolumnfits, specDate_fits hr.repeatUntil⟩
      cases hd
      exact hdescfits
    · rw [hspec, hdescription]
      exact hby

/-- A draft that fits is shown. -/
theorem view_given {draft : TaskSpecDraft} (h : DraftFits fromisoformat draft) (rounds : Nat) :
    ∃ view, draftView draft rounds = some view := by
  have hcategory : ∃ c, categoryOf (Json.lookup "category" draft.intake.spec) = some c := by
    rw [show draft.intake.spec = draft.spec from rfl]
    rcases h.spec with hspec | ⟨r, -, hspec⟩
    · rw [hspec]
      exact ⟨.immediate, rfl⟩
    · rw [hspec, (specOf_fields r).2.2.1]
      exact ⟨r.category, category_resolved r.category⟩
  obtain ⟨c, hc⟩ := hcategory
  unfold draftView resolved
  rw [hc]
  exact ⟨_, rfl⟩

/-- Confirming a draft that fits yields one row. -/
theorem confirm_fits {draft : TaskSpecDraft} (h : DraftFits fromisoformat draft) {now : Timestamp} (hnow : TimeFits now)
    (db : Db) (profiles : Profiles) (owner : String) (extraTags : List String) :
    ∃ t, confirm fromisoformat now db profiles draft.intake owner extraTags = some (db.insert t) ∧ Fits t ∧
      DescribedBy draft t := by
  obtain ⟨f, hf, hfits, description, hdescription, hby⟩ := resolvedFields_fit h profiles owner extraTags
  obtain ⟨t, ht, htfits, -, htdescription⟩ := createTaskFromFields_fits hfits hnow db profiles
  refine ⟨t, ?_, htfits, description, htdescription.trans hdescription, hby⟩
  unfold confirm
  rw [hf, Option.map_some, ht]

/-! ## Every answer -/

/-- A draft that is shown and, when confirmed, yields one row. -/
structure DraftYields (fromisoformat : String → Option Timestamp) (now : Timestamp) (db : Db) (profiles : Profiles)
    (extraTags : List String) (rounds : Nat) (draft : TaskSpecDraft) : Prop where
  fits : DraftFits fromisoformat draft
  shown : ∃ view, draftView draft rounds = some view
  confirmed : ∃ t, confirm fromisoformat now db profiles draft.intake draft.ownerId extraTags = some (db.insert t) ∧
    Fits t ∧ DescribedBy draft t

end Open

/-! ## One answer -/

def reportText : String := "Please write the quarterly report for Acme"

/-- What the classifier answers about it. -/
def reportAsked : Asked := .content (some "report.json")

/-- `json.loads` of that answer. -/
def reportLoads (content : String) : Loads :=
  if content = "report.json" then
    .value (.obj [("title", .str "Report"), ("description", .str "Write it"), ("questions", .arr [.str "By when?"])])
  else .decodeError

def reportResult : LLMResult := ⟨"Report", true, .immediate, .null, .null, .null, some "Write it", none, none⟩

theorem report_stripped : PyStr.stripString "report.json" = "report.json" := by decide

theorem report_parsed : parseLlmResponse reportLoads "report.json" = some (some reportResult) := by
  have hfences : stripMarkdownFences "report.json" = "report.json" := by decide
  unfold parseLlmResponse
  rw [hfences]
  rfl

theorem report_result (text : String) : generateTitle reportLoads text reportAsked = reportResult := by
  simp only [generateTitle, reportAsked, Option.getD_some, report_stripped, report_parsed]
  exact if_neg (by decide)

theorem report_plain : Plain (fun _ => none) reportResult where
  title := by decide
  description := by
    intro d hd
    cases hd
    decide +kernel
  repeatInterval := ⟨none, rfl, nofun⟩
  executeAt := nofun
  repeatUntil := nofun
  numbers := ⟨rfl, rfl⟩

theorem report_asked : PlainAsked reportLoads (fun _ => none) reportAsked where
  text := by
    intro content h
    cases h
    decide
  fields := by
    intro content h r hr
    cases h
    rw [report_stripped, report_parsed] at hr
    cases hr
    exact report_plain
  questions := by
    have hquestions : questionsOf reportLoads reportAsked = [⟨"q1", "By when?"⟩] := by decide
    rw [hquestions]
    intro q hq
    cases List.mem_singleton.mp hq
    decide

theorem reportText_fits : TextFits reportText := by decide

theorem reportText_stripped : PyStr.stripString reportText = reportText := by decide

end Errand.Server.ClassifierAnswers

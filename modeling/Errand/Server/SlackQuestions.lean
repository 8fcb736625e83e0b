import Errand.Lib.Dict
import Errand.Lib.FreeNames
import Errand.Server.Drafts

/-
  Errand.Server.SlackQuestions — the intake's questions as a Slack form, and the answers back
  (`_normalise_questions`, errand/llm.py; `_question_block`, platforms/slack/blocks.py;
  `answers_from_state`, intake.py; `answer`, clarify.py).

  A question's id is in its block's id and a choice is its option's value, each cut to Slack's
  limit. Slack answers the values by block; the answers are matched by the questions' ids.

  Proved:
  - `carried_iff`: when the form is one, and every question filled in gets what was filled in.
  - `a_long_id_loses_its_answer`: a question for which it does not.
-/

namespace Errand.Server.SlackQuestions

open Errand.Lib Errand.Lib.PyStr Errand.Server.Drafts

/-! ## The questions -/

/-- `choices` is none where `kind` is `free_text`. -/
structure Asked where
  id : String
  text : String
  choices : Option (List String)
  deriving DecidableEq, Repr

def maxClarifyingQuestions : Nat := 3

/-- A text of an entry, stripped, if it is one and not blank. -/
def strippedText? : Option Json → Option String
  | some (.str s) => if (stripString s).isEmpty then none else some (stripString s)
  | _ => none

/-- The id a question gets: its own, or the first of `q<n>` that is not taken. -/
def questionId (entry : List (String × Json)) (questions : List Asked) : String :=
  let seen := questions.map Asked.id
  match strippedText? (Json.lookup "id" entry) with
  | some id => if id ∈ seen then free seen else id
  | none => free seen
where
  free (seen : List String) : String := FreeNames.firstFree seen fun n => "q" ++ toString (questions.length + 1 + n)

def choicesOf (entry : List (String × Json)) : List String :=
  match Json.lookup "choices" entry with
  | some (.arr items) => items.filterMap fun item => strippedText? (some item)
  | _ => []

def normaliseEntry (questions : List Asked) (entry : Json) : List Asked :=
  if maxClarifyingQuestions ≤ questions.length then questions
  else
    match (match entry with | .str s => .obj [("text", .str s)] | entry => entry : Json) with
    | .obj fields =>
      match strippedText? (Json.lookup "text" fields) with
      | none => questions
      | some text =>
        let choices := choicesOf fields
        let isChoice := Json.fieldIs "kind" "choice" (.obj fields) && choices ≠ []
        questions ++ [⟨questionId fields questions, text, if isChoice then some choices else none⟩]
    | _ => questions

/-- `_normalise_questions`; none is no questions. -/
def normaliseQuestions : Json → List Asked
  | .arr entries => entries.foldl normaliseEntry []
  | _ => []

/-! ## The form -/

structure SelectOption where
  text : String
  value : String
  deriving DecidableEq, Repr

inductive Element where
  | staticSelect (options : List SelectOption)
  | plainTextInput
  deriving DecidableEq, Repr

structure Block where
  blockId : String
  label : String
  element : Element
  deriving DecidableEq, Repr

/-- `text[:limit]`. -/
def cut (limit : Nat) (text : String) : String := String.ofList (text.toList.take limit)

def taskSpecQuestionBlockPrefix : String := "task_spec_q:"

def questionBlock (question : Asked) : Block where
  blockId := cut 255 (taskSpecQuestionBlockPrefix ++ question.id)
  label := cut 2000 question.text
  element :=
    match question.choices with
    | some choices => .staticSelect ((choices.take 100).map fun choice => ⟨cut 75 choice, cut 150 choice⟩)
    | none => .plainTextInput

/-- What a user does with a block: the text typed, or the place of the option selected. -/
structure Filling where
  typed : String
  selected : Option Nat

/-- The value Slack answers for a block. -/
def valueOf (block : Block) (filling : Filling) : Option String :=
  match block.element with
  | .staticSelect options => (filling.selected.bind (options[·]?)).map SelectOption.value
  | .plainTextInput => if filling.typed.isEmpty then none else some filling.typed

/-- `state.values`, by block. -/
def stateValues (questions : List Asked) (fill : Asked → Filling) : List (String × Option String) :=
  Dict.ofItems (questions.map fun q => ((questionBlock q).blockId, valueOf (questionBlock q) (fill q)))

/-- The answer of an item of `state.values`. -/
def answerOf (item : String × Option String) : Option (String × String) :=
  if taskSpecQuestionBlockPrefix.toList.isPrefixOf item.1.toList then
    item.2.map fun value => (String.ofList (item.1.toList.drop taskSpecQuestionBlockPrefix.length), value)
  else none

def answersFromState (values : List (String × Option String)) : List (String × String) :=
  Dict.ofItems (values.filterMap answerOf)

/-- What `answer` is called with when the form is submitted. -/
def responses (questions : List Asked) (fill : Asked → Filling) : List (String × Json) :=
  (answersFromState (stateValues questions fill)).map fun answer => (answer.1, .str answer.2)

/-! ## What is carried -/

/-- What a question is filled in with: the text typed, or the choice selected. -/
def filledIn (question : Asked) (filling : Filling) : Option String :=
  match question.choices with
  | some choices => filling.selected.bind ((choices.take 100)[·]?)
  | none => if filling.typed.isEmpty then none else some filling.typed

/-- The form is one Slack can tell apart, and each answer is recorded under its question. -/
structure Carries (questions : List Asked) (fill : Asked → Filling) : Prop where
  blocks : (questions.map fun q => (questionBlock q).blockId).Nodup
  options : ∀ q ∈ questions, ∀ options, (questionBlock q).element = .staticSelect options →
    (options.map SelectOption.value).Nodup
  answers : ∀ q ∈ questions, ∀ v, filledIn q (fill q) = some v →
    answerLine (responses questions fill) ⟨q.id, q.text⟩ = some (q.text ++ " -> " ++ v)

/-- The ids differ within Slack's limit, the choices of each question do, and of the questions
    filled in the ids and the choices selected are no longer, and the texts typed have no white
    space around them. -/
structure Fits (questions : List Asked) (fill : Asked → Filling) : Prop where
  ids : (questions.map fun q => q.id.toList.take 243).Nodup
  choices : ∀ q ∈ questions, ∀ choices, q.choices = some choices →
    ((choices.take 100).map fun choice => choice.toList.take 150).Nodup
  answers : ∀ q ∈ questions, ∀ v, filledIn q (fill q) = some v →
    q.id.toList.length ≤ 243 ∧ if q.choices.isSome then v.toList.length ≤ 150 else stripString v = v

/-! ## Questions as they are normalised -/

structure Normal (questions : List Asked) : Prop where
  ids : (questions.map Asked.id).Nodup
  choices : ∀ q ∈ questions, ∀ choices, q.choices = some choices →
    ∀ choice ∈ choices, stripString choice = choice ∧ choice.isEmpty = false

theorem strippedText?_spec {entry : Option Json} {s : String} (h : strippedText? entry = some s) :
    stripString s = s ∧ s.isEmpty = false := by
  unfold strippedText? at h
  split at h
  · split at h
    · cases h
    · rename_i hne
      cases h
      exact ⟨stripString_stripString _, eq_false_of_ne_true hne⟩
  · cases h

theorem questionId_new (entry : List (String × Json)) (questions : List Asked) :
    questionId entry questions ∉ questions.map Asked.id := by
  have hfree : questionId.free questions (questions.map Asked.id) ∉ questions.map Asked.id := by
    refine (FreeNames.firstFree_spec fun m n h => ?_).1
    have hnumber := FreeNames.toString_injective (String.append_right_inj _ |>.mp h)
    exact Nat.add_left_cancel hnumber
  unfold questionId
  dsimp only
  split
  · split
    · exact hfree
    · assumption
  · exact hfree

theorem choicesOf_spec {entry : List (String × Json)} {choice : String} (h : choice ∈ choicesOf entry) :
    stripString choice = choice ∧ choice.isEmpty = false := by
  unfold choicesOf at h
  split at h
  · obtain ⟨item, -, hitem⟩ := List.mem_filterMap.mp h
    exact strippedText?_spec hitem
  · cases h

theorem Normal.concat {questions : List Asked} (h : Normal questions) {q : Asked} (hid : q.id ∉ questions.map Asked.id)
    (hchoices : ∀ choices, q.choices = some choices → ∀ choice ∈ choices,
      stripString choice = choice ∧ choice.isEmpty = false) : Normal (questions ++ [q]) := by
  constructor
  · rw [List.map_append, List.nodup_append]
    refine ⟨h.ids, List.nodup_singleton _, ?_⟩
    intro id hmem id' hmem' heq
    rw [List.map_singleton, List.mem_singleton] at hmem'
    exact hid (by rw [← hmem', ← heq]; exact hmem)
  · intro p hp
    rcases List.mem_append.mp hp with hp | hp
    · exact h.choices p hp
    · rw [List.mem_singleton] at hp
      subst hp
      exact hchoices

theorem normaliseEntry_normal {questions : List Asked} (h : Normal questions) (entry : Json) :
    Normal (normaliseEntry questions entry) := by
  unfold normaliseEntry
  split
  · exact h
  · split
    · rename_i fields _
      split
      · exact h
      · refine h.concat (questionId_new fields questions) fun choices heq choice hmem => ?_
        dsimp only at heq
        split at heq
        · cases heq
          exact choicesOf_spec hmem
        · cases heq
    · exact h

theorem normaliseQuestions_normal (raw : Json) : Normal (normaliseQuestions raw) := by
  have hstart : Normal [] := ⟨List.nodup_nil, nofun⟩
  cases raw with
  | arr entries =>
    show Normal (entries.foldl normaliseEntry [])
    revert hstart
    generalize ([] : List Asked) = questions
    intro h
    induction entries generalizing questions with
    | nil => exact h
    | cons entry entries ih => exact ih _ (normaliseEntry_normal h entry)
  | _ => exact hstart

/-! ## Block ids and values -/

theorem cut_short {limit : Nat} {s : String} (h : s.toList.length ≤ limit) : cut limit s = s := by
  rw [cut, List.take_of_length_le h, String.ofList_toList]

theorem blockId_toList (q : Asked) :
    (questionBlock q).blockId.toList = taskSpecQuestionBlockPrefix.toList ++ q.id.toList.take 243 := by
  show (cut 255 (taskSpecQuestionBlockPrefix ++ q.id)).toList = _
  rw [cut, String.toList_ofList, String.toList_append, List.take_append, List.take_of_length_le (by decide)]
  rfl

theorem blocks_iff (questions : List Asked) :
    (questions.map fun q => (questionBlock q).blockId).Nodup ↔ (questions.map fun q => q.id.toList.take 243).Nodup := by
  have hmap : questions.map (fun q => (questionBlock q).blockId) =
      (questions.map fun q => q.id.toList.take 243).map fun l => String.ofList (taskSpecQuestionBlockPrefix.toList ++ l) := by
    rw [List.map_map]
    refine List.map_congr_left fun q _ => ?_
    rw [Function.comp_apply, ← blockId_toList, String.ofList_toList]
  rw [hmap, List.nodup_map_iff fun a b h => List.append_cancel_left (String.ofList_inj.mp h)]

theorem options_iff (q : Asked) :
    (∀ options, (questionBlock q).element = .staticSelect options → (options.map SelectOption.value).Nodup) ↔
      ∀ choices, q.choices = some choices → ((choices.take 100).map fun choice => choice.toList.take 150).Nodup := by
  cases hq : q.choices with
  | none => simp [questionBlock, hq]
  | some choices =>
    have hvalues : (((choices.take 100).map fun choice => (⟨cut 75 choice, cut 150 choice⟩ : SelectOption)).map
        SelectOption.value) = ((choices.take 100).map fun choice => choice.toList.take 150).map String.ofList := by
      rw [List.map_map, List.map_map]
      rfl
    have hinj : Function.Injective String.ofList := fun a b h => String.ofList_inj.mp h
    simp only [questionBlock, hq, Element.staticSelect.injEq, forall_eq', Option.some.injEq, hvalues,
      List.nodup_map_iff hinj]

/-- The value Slack answers for what a question is filled in with. -/
theorem valueOf_filledIn {q : Asked} {filling : Filling} {v : String} (h : filledIn q filling = some v) :
    valueOf (questionBlock q) filling = some (if q.choices.isSome then cut 150 v else v) := by
  unfold filledIn at h
  unfold valueOf questionBlock
  cases hq : q.choices with
  | none =>
    rw [hq] at h
    exact h
  | some choices =>
    rw [hq] at h
    obtain ⟨j, hj, hv⟩ := Option.bind_eq_some_iff.mp h
    dsimp only
    rw [hj, Option.bind_some, List.getElem?_map, hv]
    rfl

/-! ## Answers -/

theorem lookup_responses (answers : List (String × String)) (id : String) :
    Json.lookup id (answers.map fun answer => (answer.1, .str answer.2)) = (Dict.get? answers id).map .str := by
  induction answers with
  | nil => rfl
  | cons answer answers ih =>
    obtain ⟨k, v⟩ := answer
    rw [List.map_cons, Json.lookup, Dict.get?]
    split
    · rfl
    · exact ih

/-- The key a question's answer comes back under. -/
def answerKey (q : Asked) : String := cut 243 q.id

theorem answerOf_block (q : Asked) (value : Option String) :
    answerOf ((questionBlock q).blockId, value) = value.map fun v => (answerKey q, v) := by
  unfold answerOf
  rw [blockId_toList, if_pos (List.isPrefixOf_iff_prefix.mpr (List.prefix_append ..)), List.drop_left' (by decide)]
  rfl

/-- The answers of a form whose blocks can be told apart. -/
theorem answers_eq {questions : List Asked} (fill : Asked → Filling)
    (h : (questions.map fun q => (questionBlock q).blockId).Nodup) :
    answersFromState (stateValues questions fill) =
      Dict.ofItems (questions.filterMap fun q => (valueOf (questionBlock q) (fill q)).map fun v => (answerKey q, v)) := by
  have hkeys : (Dict.keys (questions.map fun q => ((questionBlock q).blockId, valueOf (questionBlock q) (fill q)))).Nodup := by
    rw [Dict.keys, List.map_map]
    exact h
  have hitems : (answerOf ∘ fun q => ((questionBlock q).blockId, valueOf (questionBlock q) (fill q))) =
      fun q => (valueOf (questionBlock q) (fill q)).map fun v => (answerKey q, v) := by
    funext q
    rw [Function.comp_apply, answerOf_block]
  rw [answersFromState, stateValues, Dict.ofItems_self hkeys, List.filterMap_map, hitems]

theorem keys_filterMap_sublist {α β κ : Type} (key : α → κ) (value : α → Option β) (l : List α) :
    (Dict.keys (l.filterMap fun a => (value a).map fun b => (key a, b))).Sublist (l.map key) := by
  induction l with
  | nil => exact List.Sublist.refl _
  | cons a l ih =>
    cases hv : value a with
    | none =>
      rw [List.filterMap_cons_none (by rw [hv]; rfl)]
      exact ih.trans (List.sublist_cons_self ..)
    | some b =>
      rw [List.filterMap_cons_some (by rw [hv]; rfl)]
      exact ih.cons_cons (key a)

/-- What comes back for a question that is filled in. -/
theorem get?_answers {questions : List Asked} {fill : Asked → Filling}
    (h : (questions.map fun q => q.id.toList.take 243).Nodup) {q : Asked} (hq : q ∈ questions) {v : String}
    (hv : filledIn q (fill q) = some v) :
    Dict.get? (answersFromState (stateValues questions fill)) q.id =
      if q.id.toList.length ≤ 243 then some (if q.choices.isSome then cut 150 v else v) else none := by
  have hinj : Function.Injective String.ofList := fun a b h => String.ofList_inj.mp h
  have hkeys : (questions.map answerKey).Nodup := by
    have hnodup := (List.nodup_map_iff hinj).mpr h
    rwa [List.map_map] at hnodup
  have hnodup := hkeys.sublist (keys_filterMap_sublist answerKey (fun q => valueOf (questionBlock q) (fill q)) questions)
  rw [answers_eq fill ((blocks_iff questions).mpr h), Dict.ofItems_self hnodup]
  split
  · rename_i hshort
    refine Dict.get?_of_mem hnodup ?_
    rw [List.mem_filterMap]
    refine ⟨q, hq, ?_⟩
    rw [valueOf_filledIn hv, Option.map_some, answerKey, cut_short hshort]
  · rename_i hlong
    refine Option.not_isSome_iff_eq_none.mp fun hsome => hlong ?_
    have hmem := (keys_filterMap_sublist ..).subset ((Dict.mem_keys_iff ..).mpr hsome)
    obtain ⟨p, -, hp⟩ := List.mem_map.mp hmem
    rw [← hp, answerKey, cut, String.toList_ofList]
    exact List.length_take_le ..

theorem answerLine_iff {responses : List (String × Json)} {id text value v : String} (hv : v.isEmpty = false)
    (h : Json.lookup id responses = some (.str value)) :
    answerLine responses ⟨id, text⟩ = some (text ++ " -> " ++ v) ↔ stripString value = v := by
  unfold answerLine
  rw [h]
  dsimp only
  constructor
  · intro hline
    split at hline
    · cases hline
    · exact (String.append_right_inj _).mp (Option.some.inj hline)
  · rintro rfl
    rw [hv]
    rfl

theorem filledIn_spec {questions : List Asked} (hn : Normal questions) {q : Asked} (hq : q ∈ questions) {filling : Filling}
    {v : String} (h : filledIn q filling = some v) :
    v.isEmpty = false ∧ (q.choices.isSome = true → stripString v = v) := by
  unfold filledIn at h
  cases hc : q.choices with
  | none =>
    rw [hc] at h
    dsimp only at h
    split at h
    · cases h
    · rename_i hne
      cases h
      exact ⟨eq_false_of_ne_true hne, nofun⟩
  | some choices =>
    rw [hc] at h
    obtain ⟨j, -, hj⟩ := Option.bind_eq_some_iff.mp h
    have hmem : v ∈ choices := List.mem_of_mem_take (List.mem_of_getElem? hj)
    obtain ⟨hstrip, hne⟩ := hn.choices q hq choices hc v hmem
    exact ⟨hne, fun _ => hstrip⟩

/-- A choice is recorded if it is no longer than an option's value. -/
theorem strip_cut_iff {limit : Nat} {v : String} (hv : stripString v = v) :
    stripString (cut limit v) = v ↔ v.toList.length ≤ limit := by
  constructor
  · intro h
    have hlen := (strip_within (cut limit v).toList).length_le
    have heq : strip (cut limit v).toList = v.toList := by
      have htext := congrArg String.toList h
      rwa [stripString, String.toList_ofList] at htext
    rw [heq, cut, String.toList_ofList, List.length_take] at hlen
    omega
  · intro h
    rw [cut_short h, hv]

theorem answer_iff {questions : List Asked} (hn : Normal questions) {fill : Asked → Filling}
    (h : (questions.map fun q => q.id.toList.take 243).Nodup) {q : Asked} (hq : q ∈ questions) {v : String}
    (hv : filledIn q (fill q) = some v) :
    answerLine (responses questions fill) ⟨q.id, q.text⟩ = some (q.text ++ " -> " ++ v) ↔
      q.id.toList.length ≤ 243 ∧ if q.choices.isSome then v.toList.length ≤ 150 else stripString v = v := by
  obtain ⟨hne, hstrip⟩ := filledIn_spec hn hq hv
  have hget := get?_answers h hq hv
  have hlookup : Json.lookup q.id (responses questions fill) = _ := lookup_responses _ _
  rw [hget] at hlookup
  by_cases hshort : q.id.toList.length ≤ 243
  · rw [if_pos hshort] at hlookup
    rw [answerLine_iff hne hlookup]
    cases hc : q.choices.isSome with
    | true => simp [hshort, strip_cut_iff (hstrip hc)]
    | false => simp [hshort]
  · rw [if_neg hshort] at hlookup
    unfold answerLine
    rw [hlookup]
    exact ⟨nofun, fun hfits => absurd hfits.1 hshort⟩

theorem carries_iff {questions : List Asked} (hn : Normal questions) (fill : Asked → Filling) :
    Carries questions fill ↔ Fits questions fill := by
  constructor
  · intro h
    have hids := (blocks_iff questions).mp h.blocks
    exact ⟨hids, fun q hq => (options_iff q).mp (h.options q hq),
      fun q hq v hv => (answer_iff hn hids hq hv).mp (h.answers q hq v hv)⟩
  · intro h
    exact ⟨(blocks_iff questions).mpr h.ids, fun q hq => (options_iff q).mpr (h.choices q hq),
      fun q hq v hv => (answer_iff hn h.ids hq hv).mpr (h.answers q hq v hv)⟩

/-! ## Every list of questions -/

/-- Whatever the classifier asks and however the form is filled in. -/
theorem carried_iff (raw : Json) (fill : Asked → Filling) :
    Carries (normaliseQuestions raw) fill ↔ Fits (normaliseQuestions raw) fill :=
  carries_iff (normaliseQuestions_normal raw) fill

/-- A question by its id. -/
def asking (id : String) : Json := .arr [.obj [("id", .str id), ("text", .str "Which repository?")]]

theorem normalise_asking {id : String} (h : strippedText? (some (.str id)) = some id) :
    normaliseQuestions (asking id) = [⟨id, "Which repository?", none⟩] := by
  have htext : strippedText? (some (.str "Which repository?")) = some "Which repository?" := by decide
  simp [normaliseQuestions, asking, normaliseEntry, maxClarifyingQuestions, Json.lookup, htext, questionId, h,
    Json.fieldIs, Json.get?]

/-- A text without white space is taken as it is. -/
theorem strippedText?_solid {c : Char} (hc : isSpace c = false) {n : Nat} (hn : 0 < n) :
    strippedText? (some (.str (String.ofList (List.replicate n c)))) = some (String.ofList (List.replicate n c)) := by
  have hspace : ∀ d ∈ List.replicate n c, isSpace d = false := by
    intro d hd
    rw [List.eq_of_mem_replicate hd, hc]
  have hstrip : strip (List.replicate n c ++ []) = List.replicate n c :=
    strip_append (fun d hd => hspace d (List.mem_of_head? hd)) (fun d hd => hspace d (List.mem_of_getLast? hd)) nofun
  rw [List.append_nil] at hstrip
  unfold strippedText? stripString
  dsimp only
  rw [String.toList_ofList, hstrip, if_neg]
  rw [String.isEmpty_iff]
  intro hempty
  have hlen := congrArg (fun s : String => s.toList.length) hempty
  simp only [String.toList_ofList, List.length_replicate] at hlen
  exact absurd hlen hn.ne'

/-- The answer to a question whose id is of 244 characters comes back under the first 243. -/
theorem a_long_id_loses_its_answer :
    ¬ Carries (normaliseQuestions (asking (String.ofList (List.replicate 244 'r')))) fun _ => ⟨"errand", none⟩ := by
  rw [carries_iff (normaliseQuestions_normal _), normalise_asking (strippedText?_solid (by decide) (by decide))]
  intro h
  have hshort := (h.answers _ List.mem_cons_self "errand" rfl).1
  rw [String.toList_ofList, List.length_replicate] at hshort
  omega

end Errand.Server.SlackQuestions

import Errand.Lib.JsonCut
import Errand.Runner.Output

/-
  Errand.Server.TaskOutput — what the server makes of a runner's output
  (`TaskRunnerOutput`, `extract_json`, `truncate_output`, `_run_task`; task_manager.py).

  The output comes back by the callback as it is, or on stdout with a line break behind it.
  It is cut to a number of bytes, with a marker put behind the cut; then an object is looked
  for in it that is valid for the server's model, which knows two statuses.

  The runner writes one object. An object that is cut is no object any more, and neither a
  fence nor braces help: so the server understands a result exactly if it knows its status
  and the cut leaves the object whole.

  Proved:
  - `read_written_iff`: what is read from a written result that was delivered.
  - `server_understands_iff`: for whatever a runner declares; `a_done_result_is_lost`.
-/

namespace Errand.Server.TaskOutput

open Errand.Lib
open Errand.Runner
open Errand.Runner.Output

/-! ## The server's side -/

def statuses : List String := ["completed", "needs_input"]

/-- `TaskRunnerOutput.model_validate_json`. The last of equal keys counts. -/
def modelValidateJson (s : List Char) : Option TaskRunnerOutput :=
  match Json.parse s with
  | some (.obj fields) => (validate (.obj fields.reverse)).filter fun o => statuses.contains o.status
  | _ => none

def acceptText (s : List Char) : Option (List Char) := (modelValidateJson s).map fun _ => s

def extractJson (text : List Char) : Option (List Char) := JsonExtract.extract acceptText text

/-- Where `encoded[:max_bytes]` ends. -/
def sliceEnd (maxBytes : Int) (size : Nat) : Nat :=
  if 0 ≤ maxBytes then maxBytes.toNat else (size + maxBytes).toNat

def marker (maxBytes : Int) : List Char :=
  ("\n\n--- OUTPUT TRUNCATED (exceeded " ++ toString maxBytes ++ " bytes) ---").toList

def truncateOutput (maxBytes : Int) (output : List Char) : List Char :=
  if (PyStr.utf8Size output : Int) ≤ maxBytes then output
  else PyStr.takeBytes (sliceEnd maxBytes (PyStr.utf8Size output)) output ++ marker maxBytes

/-- What `_run_task` makes of the runner's stdout. -/
def readOutput (maxBytes : Int) (text : List Char) : Option TaskRunnerOutput :=
  let stdout := truncateOutput maxBytes text
  (if stdout.isEmpty then none else extractJson stdout).bind modelValidateJson

/-- How an output reaches the server. -/
inductive Delivery where
  | callback
  /-- Printed, and read back from the container. -/
  | stdout
  deriving DecidableEq, Repr

def delivered : Delivery → List Char → List Char
  | .callback, output => output
  | .stdout, output => output ++ ['\n']

/-- The bytes of a text that are read. -/
def bytesRead (maxBytes : Int) (size : Nat) : Nat := if (size : Int) ≤ maxBytes then size else sliceEnd maxBytes size

/-- The output is not cut. -/
def Whole (maxBytes : Int) (d : Delivery) (output : List Char) : Prop :=
  PyStr.utf8Size output ≤ bytesRead maxBytes (PyStr.utf8Size (delivered d output))

instance (maxBytes : Int) (d : Delivery) (output : List Char) : Decidable (Whole maxBytes d output) :=
  inferInstanceAs (Decidable (_ ≤ _))

/-! ## A written result -/

/-- The text is the object a result is written as, in one line. -/
structure Written (o : TaskRunnerOutput) (s : List Char) : Prop where
  parse : Json.parse s = some (toJson o)
  first : s.head? = some '\x7b'
  last : s.getLast? = some '\x7d'
  oneLine : '\n' ∉ s

theorem written {L : Json.Layout} (hL : L.OneLine) (o : TaskRunnerOutput) : Written o (Json.write L (toJson o)) := by
  refine ⟨Json.parse_write hL.valid _, rfl, ?_, Json.write_oneLine hL _⟩
  show ('\x7b' :: Json.writeFields L _ ++ ['\x7d']).getLast? = _
  rw [List.getLast?_append]
  rfl

theorem strings_map (ss : List String) : strings (ss.map .str) = some ss := by
  induction ss with
  | nil => rfl
  | cons s ss ih => rw [List.map_cons, strings, ih]; rfl

theorem validate_toJson (o : TaskRunnerOutput) :
    validate (.obj [("questions", .arr (o.questions.map .str)), ("result", .str o.result), ("status", .str o.status)]) =
      some o := by
  have hq : Json.lookup "questions" [("questions", Json.arr (o.questions.map .str)), ("result", .str o.result),
      ("status", .str o.status)] = some (.arr (o.questions.map .str)) := by rfl
  have hr : Json.lookup "result" [("questions", Json.arr (o.questions.map .str)), ("result", .str o.result),
      ("status", .str o.status)] = some (.str o.result) := by rfl
  have hs : Json.lookup "status" [("questions", Json.arr (o.questions.map .str)), ("result", .str o.result),
      ("status", .str o.status)] = some (.str o.status) := by rfl
  simp only [validate, Json.get?, hq, hr, hs, questionsField, strings_map]

/-- What parses to no object is not accepted. -/
theorem modelValidateJson_none {s : List Char} (h : ∀ fields, Json.parse s ≠ some (.obj fields)) :
    modelValidateJson s = none := by
  unfold modelValidateJson
  split
  · rename_i fields hs
    exact absurd hs (h fields)
  · rfl

theorem modelValidateJson_status {s : List Char} {o : TaskRunnerOutput} (h : modelValidateJson s = some o) :
    statuses.contains o.status = true := by
  unfold modelValidateJson at h
  split at h
  · exact (Option.filter_eq_some_iff.mp h).2
  · cases h

variable {o : TaskRunnerOutput} {s : List Char}

theorem Written.validate (h : Written o s) (hstatus : statuses.contains o.status = true) : modelValidateJson s = some o := by
  rw [modelValidateJson, h.parse]
  show (Output.validate (.obj [_, _, _])).filter _ = _
  rw [validate_toJson, Option.filter_some, if_pos hstatus]

/-- A text that begins with a written result and is carried on with another character. -/
theorem Written.parse_append (h : Written o s) {c : Char} {t ws : List Char} (hws : ∀ c ∈ ws, Json.isWs c = true)
    (hc : Json.isWs c = false) (fields : List (String × Json)) : Json.parse (s ++ (ws ++ c :: t)) ≠ some (.obj fields) := by
  intro hobj
  obtain ⟨r, hv, hr⟩ := Json.parse_obj h.parse
  obtain ⟨r', hv', hr'⟩ := Json.parse_obj hobj
  obtain ⟨b, hb, hfar⟩ := Json.value_obj_stable hv
  -- the object ends where its text does
  have hnil : r = [] := by
    rcases List.eq_nil_or_concat r with rfl | ⟨r, d, rfl⟩
    · rfl
    · have hlast := h.last
      rw [hb, List.concat_eq_append, ← List.cons_append, ← List.append_assoc, List.getLast?_concat] at hlast
      cases hlast
      have hmem : '\x7d' ∈ r.concat '\x7d' := by simp
      exact absurd (List.dropWhile_eq_nil_iff.mp hr _ hmem) (by decide)
  subst hnil
  have hlen : s.length + 1 ≤ (s ++ (ws ++ c :: t)).length + 1 := by simp
  have hwhole := hfar _ (ws ++ c :: t) hlen
  have htext : b ++ '\x7d' :: (ws ++ c :: t) = s ++ (ws ++ c :: t) := by rw [hb]; simp
  rw [htext, hv', Option.some.injEq, Prod.mk.injEq] at hwhole
  rw [hwhole.2, Json.skipWs_token hws hc] at hr'
  cases hr'

/-! ## The marker -/

theorem int_chars (n : Int) : '\x7d' ∉ n.repr.toList ∧ '`' ∉ n.repr.toList := by
  constructor <;> exact fun h => absurd (Json.toString_atomChars n _ h) (by decide)

/-- The marker is two line breaks and text without braces and fences. -/
theorem marker_eq (maxBytes : Int) :
    ∃ t, marker maxBytes = '\n' :: '\n' :: '-' :: t ∧ t.getLast? = some '-' ∧ '\x7d' ∉ '-' :: t ∧ '`' ∉ '-' :: t := by
  obtain ⟨hbrace, hfence⟩ := int_chars maxBytes
  refine ⟨"-- OUTPUT TRUNCATED (exceeded ".toList ++ (toString maxBytes).toList ++ " bytes) ---".toList, ?_, ?_, ?_, ?_⟩
  · simp [marker]
  · rw [List.getLast?_append]
    rfl
  · simp [hbrace]
  · simp [hfence]

/-! ## A cut result -/

/-- A text none of whose line breaks has a fence behind it has no fence. -/
theorem fenced_none {s : List Char} (h : ∀ a b, s = a ++ '\n' :: b → '`' ∉ b) : JsonExtract.fenced s = none := by
  cases hf : JsonExtract.fenced s with
  | none => rfl
  | some content =>
    obtain ⟨a, b, hs, hb⟩ := JsonExtract.fenced_break hf
    exact absurd hb (h a b hs)

/-- One line and a text without a fence have no fence. -/
theorem fenced_line {p u : List Char} (hp : '\n' ∉ p) (hu : '`' ∉ u) : JsonExtract.fenced (p ++ u) = none := by
  apply fenced_none
  intro a b hab
  rcases List.append_eq_append_iff.mp hab with ⟨c, rfl, hc⟩ | ⟨c, rfl, hc⟩
  · intro hb
    apply hu
    rw [hc]
    simp [hb]
  · cases c with
    | nil =>
      rw [List.nil_append] at hc
      rw [← hc, List.mem_cons, not_or] at hu
      exact hu.2
    | cons x c =>
      cases hc
      exact absurd (by simp) hp

theorem extract_none {text : List Char} (h : ∀ c ∈ JsonExtract.candidates text, modelValidateJson c = none) :
    extractJson text = none := by
  rw [extractJson, JsonExtract.extract, List.findSome?_eq_none_iff]
  intro c hc
  rw [acceptText, h c hc]
  rfl

/-- A text without closing braces holds no result. -/
theorem extract_braceless {text : List Char} (h : '\x7d' ∉ text) (hf : '`' ∉ text) : extractJson text = none := by
  apply extract_none
  intro c hc
  apply modelValidateJson_none
  intro fields hparse
  have hbrace := Json.parse_obj_mem hparse
  have hstrip : '\x7d' ∉ PyStr.strip text := fun hmem => h (PyStr.strip_subset text hmem)
  have hnone : JsonExtract.fenced (PyStr.strip text) = none := by
    apply fenced_none
    intro a b hab hb
    apply hf
    apply PyStr.strip_subset text
    rw [hab]
    simp [hb]
  rcases (JsonExtract.mem_candidates hnone).mp hc with rfl | hc
  · exact hstrip hbrace
  · obtain ⟨a, b, hab, -, -⟩ := JsonExtract.braced_spec hc
    apply hstrip
    rw [hab]
    simp [hbrace]

/-- The text of a cut result is stripped of nothing. -/
theorem strip_marked {p : List Char} (hfirst : p.head? = some '\x7b') (maxBytes : Int) :
    PyStr.strip (p ++ marker maxBytes) = p ++ marker maxBytes := by
  obtain ⟨t, hm, ht, -, -⟩ := marker_eq maxBytes
  have hlast : (p ++ marker maxBytes).getLast? = some '-' := by
    have hcons : p ++ marker maxBytes = (p ++ ['\n', '\n', '-']) ++ t := by rw [hm]; simp
    rw [hcons, List.getLast?_append, ht]
    rfl
  have hstrip : PyStr.strip (p ++ marker maxBytes ++ []) = p ++ marker maxBytes := by
    refine PyStr.strip_append ?_ ?_ (by intro c hc; cases hc)
    · intro c hc
      rw [List.head?_append, hfirst, Option.some_or] at hc
      cases hc
      decide
    · intro c hc
      rw [hlast] at hc
      cases hc
      decide
  rwa [List.append_nil] at hstrip

/-- A cut result is not read, wherever it was cut. -/
theorem Written.cut (h : Written o s) {p t : List Char} (hs : s = p ++ t) (ht : t ≠ []) (maxBytes : Int) :
    extractJson (p ++ marker maxBytes) = none := by
  obtain ⟨m, hm, -, hbrace, hfence⟩ := marker_eq maxBytes
  have hbrace : '\x7d' ∉ marker maxBytes := by
    rw [hm]
    simpa using hbrace
  have hfence : '`' ∉ marker maxBytes := by
    rw [hm]
    simpa using hfence
  have htlast : t.getLast? = some '\x7d' := by
    have hlast := h.last
    rw [hs, List.getLast?_append, List.getLast?_eq_some_getLast ht, Option.some_or] at hlast
    rw [List.getLast?_eq_some_getLast ht]
    exact hlast
  have hparse : Json.parse (p ++ t) = some (toJson o) := by
    rw [← hs]
    exact h.parse
  cases p with
  | nil => exact extract_braceless hbrace hfence
  | cons c p =>
    have hfirst : (c :: p).head? = some '\x7b' := by
      have hfirst := h.first
      rw [hs] at hfirst
      exact hfirst
    have hline : '\n' ∉ c :: p := by
      intro hmem
      apply h.oneLine
      rw [hs]
      exact List.mem_append_left _ hmem
    apply extract_none
    intro x hx
    apply modelValidateJson_none
    intro fields hobj
    have hstrip := strip_marked hfirst maxBytes
    rw [JsonExtract.mem_candidates (by rw [hstrip]; exact fenced_line hline hfence), hstrip] at hx
    rcases hx with rfl | hx
    · exact Json.parse_cut hparse htlast hbrace hobj
    · -- what the braces have between them begins where the text does
      obtain ⟨a, b, hab, -, ha⟩ := JsonExtract.braced_spec hx
      have hnil : a = [] := by
        cases a with
        | nil => rfl
        | cons d a =>
          cases hfirst
          simp only [List.cons_append, List.cons.injEq] at hab
          rw [← hab.1] at ha
          exact absurd (List.mem_cons_self ..) ha
      subst hnil
      rw [List.nil_append] at hab
      rcases List.append_eq_append_iff.mp hab with ⟨u, rfl, hu⟩ | ⟨q, hq, -⟩
      · apply Json.parse_cut hparse htlast (u := u) ?_ hobj
        intro hmem
        apply hbrace
        rw [hu]
        exact List.mem_append_left _ hmem
      · rw [hq, List.append_assoc] at hparse
        rw [← List.append_nil x] at hobj
        refine Json.parse_cut hparse ?_ (by simp) hobj
        rw [List.getLast?_append, htlast]
        rfl

/-! ## What is read -/

theorem Written.not_space (h : Written o s) :
    (∀ c, s.head? = some c → PyStr.isSpace c = false) ∧ ∀ c, s.getLast? = some c → PyStr.isSpace c = false := by
  constructor
  · intro c hc
    rw [h.first] at hc
    cases hc
    decide
  · intro c hc
    rw [h.last] at hc
    cases hc
    decide

/-- A whole result, with white space behind it or not. -/
theorem Written.extract (h : Written o s) (hstatus : statuses.contains o.status = true) {ws : List Char}
    (hws : ∀ c ∈ ws, PyStr.isSpace c = true) : extractJson (s ++ ws) = some s := by
  obtain ⟨hfirst, hlast⟩ := h.not_space
  rw [extractJson, JsonExtract.extract, JsonExtract.candidates, PyStr.strip_append hfirst hlast hws, List.cons_append,
    List.findSome?_cons, acceptText, h.validate hstatus]
  rfl

/-- A whole result with the marker behind it: what the braces have between them. -/
theorem Written.extract_marked (h : Written o s) (hstatus : statuses.contains o.status = true) {ws : List Char}
    (hws : ∀ c ∈ ws, c = '\n') (maxBytes : Int) : extractJson (s ++ ws ++ marker maxBytes) = some s := by
  obtain ⟨m, hm, -, hbrace, hfence⟩ := marker_eq maxBytes
  have hfirst : (s ++ ws).head? = some '\x7b' := by rw [List.head?_append, h.first]; rfl
  have hnot : ∀ c, c ≠ '\n' → c ∉ '-' :: m → c ∉ ws ++ marker maxBytes := by
    intro c hc hcm hmem
    rw [hm] at hmem
    rcases List.mem_append.mp hmem with hmem | hmem
    · exact hc (hws c hmem)
    · simp only [List.mem_cons] at hmem hcm
      rcases hmem with hmem | hmem | hmem
      · exact hc hmem
      · exact hc hmem
      · exact hcm hmem
  have hfenced : JsonExtract.fenced (s ++ (ws ++ marker maxBytes)) = none :=
    fenced_line h.oneLine (hnot _ (by decide) hfence)
  have hbraced : JsonExtract.braced (s ++ (ws ++ marker maxBytes)) = some s :=
    JsonExtract.braced_obj h.first h.last (hnot _ (by decide) hbrace)
  have hwhole : modelValidateJson (s ++ (ws ++ marker maxBytes)) = none := by
    apply modelValidateJson_none
    intro fields
    have htext : s ++ (ws ++ marker maxBytes) = s ++ ((ws ++ ['\n', '\n']) ++ '-' :: m) := by rw [hm]; simp
    rw [htext]
    apply h.parse_append
    · intro c hc
      have hbreak : c = '\n' := by
        rcases List.mem_append.mp hc with hc | hc
        · exact hws c hc
        · simpa using hc
      rw [hbreak]
      decide
    · decide
  rw [extractJson, JsonExtract.extract, JsonExtract.candidates, strip_marked hfirst, List.append_assoc, hfenced, hbraced]
  simp [acceptText, hwhole, h.validate hstatus]

theorem readOutput_status {maxBytes : Int} {text : List Char} {o : TaskRunnerOutput}
    (h : readOutput maxBytes text = some o) : statuses.contains o.status = true := by
  obtain ⟨s, -, hs⟩ := Option.bind_eq_some_iff.mp h
  exact modelValidateJson_status hs

theorem delivered_eq (d : Delivery) (s : List Char) : ∃ ws, delivered d s = s ++ ws ∧ ∀ c ∈ ws, c = '\n' := by
  cases d with
  | callback => exact ⟨[], by simp [delivered], by simp⟩
  | stdout => exact ⟨['\n'], rfl, by simp⟩

/-- What is read of a delivered result. -/
theorem read_written_iff (h : Written o s) (maxBytes : Int) (d : Delivery) :
    readOutput maxBytes (delivered d s) = some o ↔ statuses.contains o.status = true ∧ Whole maxBytes d s := by
  obtain ⟨ws, hws, hbreak⟩ := delivered_eq d s
  unfold Whole bytesRead
  rw [hws]
  by_cases hsize : (PyStr.utf8Size (s ++ ws) : Int) ≤ maxBytes
  · have hwhole : PyStr.utf8Size s ≤ PyStr.utf8Size (s ++ ws) := by
      rw [PyStr.utf8Size_append]
      omega
    rw [if_pos hsize, and_iff_left hwhole]
    constructor
    · exact readOutput_status
    · intro hstatus
      have hne : (s ++ ws).isEmpty = false := by
        cases s with
        | nil => cases h.first
        | cons c s => rfl
      have hspace : ∀ c ∈ ws, PyStr.isSpace c = true := by
        intro c hc
        rw [hbreak c hc]
        decide
      unfold readOutput truncateOutput
      simp only [if_pos hsize, hne, Bool.false_eq_true, if_false, h.extract hstatus hspace, Option.bind_some]
      exact h.validate hstatus
  · have hne : ∀ p, (p ++ marker maxBytes).isEmpty = false := by
      intro p
      obtain ⟨m, hm, -⟩ := marker_eq maxBytes
      rw [hm]
      simp
    rw [if_neg hsize, ← PyStr.takeBytes_append_iff _ s ws]
    have hcut : truncateOutput maxBytes (s ++ ws) =
        PyStr.takeBytes (sliceEnd maxBytes (PyStr.utf8Size (s ++ ws))) (s ++ ws) ++ marker maxBytes := by
      rw [truncateOutput, if_neg hsize]
    have hpre := PyStr.takeBytes_prefix (sliceEnd maxBytes (PyStr.utf8Size (s ++ ws))) (s ++ ws)
    generalize PyStr.takeBytes (sliceEnd maxBytes (PyStr.utf8Size (s ++ ws))) (s ++ ws) = p at hcut hpre ⊢
    have hread : readOutput maxBytes (s ++ ws) = (extractJson (p ++ marker maxBytes)).bind modelValidateJson := by
      unfold readOutput
      simp only [hcut, hne, Bool.false_eq_true, if_false]
    constructor
    · intro hsome
      refine ⟨readOutput_status hsome, ?_⟩
      rcases List.prefix_or_prefix_of_prefix hpre (List.prefix_append s ws) with hp | hp
      · obtain ⟨t, ht⟩ := hp
        cases t with
        | nil =>
          rw [← ht, List.append_nil]
        | cons c t =>
          rw [hread, h.cut ht.symm (List.cons_ne_nil _ _)] at hsome
          cases hsome
      · exact hp
    · intro hx
      obtain ⟨hstatus, hwhole⟩ := hx
      obtain ⟨ws', rfl⟩ := hwhole
      have hws' : ws' <+: ws := (List.prefix_append_right_inj s).mp hpre
      rw [hread, h.extract_marked hstatus (fun c hc => hbreak c (hws'.subset hc)), Option.bind_some]
      exact h.validate hstatus

/-! ## What a runner declares -/

/-- Python with a parser; nothing else of it is used here. -/
def parsing : Python :=
  { loads := fun s =>
      match Json.parse s.toList with
      | some j => .value j
      | none => .decodeError
    str := fun _ => ""
    isAlnum := fun _ => false
    isDigit := fun _ => false
    upper := id }

def doneText : List Char := "\x7b\"status\": \"done\", \"result\": \"ok\"\x7d".toList

end Errand.Server.TaskOutput

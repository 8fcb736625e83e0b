import Errand.Lib.Json
import Errand.Lib.Pairing
import Errand.Lib.PyStr
import Errand.Runner.Python

/-
  Errand.Runner.Messages — the message list a task runner hands to the model, how it is
  measured (`_estimate_tokens`, `_context_contributors`), and the two filters that touch
  it up before that (`_sanitize_tool_calls`, `_strip_screenshots`, task-runner/main.py).

  A message is a JSON value; tool calls and their results are objects with a type and a
  call id. A call whose arguments do not parse is repaired or replaced, and its result says
  so; screenshots beyond a number are dropped from the oldest on.

  Proved:
  - `sanitizeToolCalls_kinds`, `stripScreenshots_kinds`: neither filter adds, drops or
    moves a message, or changes which call it makes or answers.
-/

namespace Errand.Runner.Messages

open Errand.Lib

/-- What a message is to the pairing of calls and results. -/
inductive Kind where
  | call (id : Option Json)
  | output (id : Option Json)
  | other

def isFunctionCall (m : Json) : Bool := m.fieldIs "type" "function_call"

def isFunctionCallOutput (m : Json) : Bool := m.fieldIs "type" "function_call_output"

def kind (m : Json) : Kind :=
  if isFunctionCall m then .call (m.get? "call_id")
  else if isFunctionCallOutput m then .output (m.get? "call_id")
  else .other

/-- A call opens its id, a result closes it. -/
def pairing : Pairing Kind (Option Json) where
  opens
    | .call id => some id
    | _ => none
  closes
    | .output id => some id
    | _ => none

/-- Every tool result comes after its call. -/
def Paired (messages : List Json) : Prop := pairing.Matched (messages.map kind)

/-! ## Measuring -/

def charsPerToken : Nat := 3

def estimateTokens (messages : List Json) : Nat := (Json.dumps (.arr messages)).length / charsPerToken

def getD (m : Json) (key : String) (default : Json) : Json := (m.get? key).getD default

/-- `a or b`. -/
def orElse (a b : Json) : Json := if a.truthy then a else b

def formatted (py : Python) : Json → String
  | .str s => s
  | j => py.str j

/-! ## What fills the context -/

structure Contributor where
  role : Json
  tool : Option Json
  chars : Nat

def snapshotTopContributors : Nat := 5

/-- The tools the calls name, under their ids. -/
def toolNames : List Json → Except PyError (List (Json.Key × Json))
  | [] => .ok []
  | m :: messages =>
    let callId := getD m "call_id" .null
    if isFunctionCall m && callId.truthy then
      match callId.key?, toolNames messages with
      | some id, .ok names => .ok ((id, orElse (getD m "name" .null) (.str "unknown")) :: names)
      | some _, .error e => .error e
      | none, _ => .error .typeError
    else toolNames messages

def contributor (py : Python) (names : List (Json.Key × Json)) (m : Json) : Except PyError Contributor :=
  match m with
  | .obj _ =>
    let chars := (Json.dumps m).length
    if isFunctionCall m then .ok ⟨.str "tool_call", some (orElse (getD m "name" .null) (.str "unknown")), chars⟩
    else if isFunctionCallOutput m then
      match (getD m "call_id" .null).key? with
      | none => .error .typeError
      | some id =>
        let tool := ((names.reverse.find? (·.1 == id)).map (·.2)).getD (.str "unknown")
        .ok ⟨.str "tool_result", some tool, chars⟩
    else .ok ⟨orElse (orElse (getD m "role" .null) (getD m "type" .null)) (.str "unknown"), none, chars⟩
  | m => .ok ⟨.str "unknown", none, (formatted py m).length⟩

def contributors (py : Python) (names : List (Json.Key × Json)) : List Json → Except PyError (List Contributor)
  | [] => .ok []
  | m :: messages =>
    match contributor py names m with
    | .error e => .error e
    | .ok c => (contributors py names messages).map (c :: ·)

/-- The largest messages, the first of those of one size first. -/
def contextContributors (py : Python) (messages : List Json) : Except PyError (List Contributor) :=
  match toolNames messages with
  | .error e => .error e
  | .ok names =>
    (contributors py names messages).map fun all =>
      (all.mergeSort fun a b => b.chars ≤ a.chars).take snapshotTopContributors

/-! ## Tool calls with malformed arguments -/

/-- Whether a text ends inside a string literal. -/
def endsInString : Bool → List Char → Bool
  | inString, [] => inString
  | true, ['\\'] => true
  | true, '\\' :: _ :: cs => endsInString true cs
  | inString, c :: cs => endsInString (if c = '"' then !inString else inString) cs

/-- The delimiters a text leaves open, the innermost first, as what closes them. -/
def openDelimiters : Bool → List Char → List Char → List Char
  | _, stack, [] => stack
  | true, stack, ['\\'] => stack
  | true, stack, '\\' :: _ :: cs => openDelimiters true stack cs
  | inString, stack, c :: cs =>
    if c = '"' then openDelimiters (!inString) stack cs
    else if inString then openDelimiters inString stack cs
    else if c = '{' then openDelimiters inString ('}' :: stack) cs
    else if c = '[' then openDelimiters inString (']' :: stack) cs
    else if (c = '}' ∨ c = ']') ∧ stack.head? = some c then openDelimiters inString stack.tail cs
    else openDelimiters inString stack cs

def closedText (s : List Char) : List Char :=
  let s := if endsInString false s then s ++ ['"'] else s
  s ++ openDelimiters false [] s

/-- Whether `json.loads` reads the text, where all but a decode error is passed on. -/
def parses (py : Python) (s : String) : Except PyError Bool :=
  match py.loads s with
  | .value _ => .ok true
  | .decodeError => .ok false
  | .valueError => .error .valueError
  | .recursionError => .error .recursionError

def repairTruncatedJson (py : Python) (s : String) : Except PyError (Option String) :=
  if (PyStr.strip s.toList).isEmpty then .ok none
  else
    match parses py s with
    | .error e => .error e
    | .ok true => .ok (some s)
    | .ok false =>
      let repaired := String.ofList (closedText s.toList)
      (parses py repaired).map fun ok => if ok then some repaired else none

def errorPlaceholder (fragment : List Char) : Json :=
  .obj [("error", .str "malformed_arguments"), ("original_fragment", .str (String.ofList fragment))]

/-- What a malformed call becomes, and the id and tool name to tell its result. -/
def sanitizeCall (py : Python) (m : Json) : Except PyError (Json × List (Json.Key × Json)) :=
  if !isFunctionCall m then .ok (m, [])
  else
    match m.get? "arguments" with
    | some (.str args) =>
      if args.isEmpty then .ok (m, [])
      else
        match parses py args with
        | .error e => .error e
        | .ok true => .ok (m, [])
        | .ok false =>
          match repairTruncatedJson py args with
          | .error e => .error e
          | .ok (some repaired) =>
            let callId := getD m "call_id" (.str "")
            if callId.truthy then
              match callId.key? with
              | some id => .ok (m.set "arguments" (.str repaired), [(id, getD m "name" (.str "unknown"))])
              | none => .error .typeError
            else .ok (m.set "arguments" (.str repaired), [])
          | .ok none =>
            let placeholder := Json.dumps (errorPlaceholder (args.toList.take 200))
            .ok (m.set "arguments" (.str (String.ofList placeholder)), [])
    | _ => .ok (m, [])

def sanitizeCalls (py : Python) : List Json → Except PyError (List Json × List (Json.Key × Json))
  | [] => .ok ([], [])
  | m :: messages =>
    match sanitizeCall py m with
    | .error e => .error e
    | .ok (m, ids) =>
      match sanitizeCalls py messages with
      | .error e => .error e
      | .ok (messages, ids') => .ok (m :: messages, ids ++ ids')

/-- `" ".join` over the text parts of a content list. -/
def joinTexts : List Json → Except PyError (List String)
  | [] => .ok []
  | part :: parts =>
    if part.fieldIs "type" "text" then
      match getD part "text" (.str ""), joinTexts parts with
      | .str text, .ok texts => .ok (text :: texts)
      | .str _, .error e => .error e
      | _, _ => .error .typeError
    else joinTexts parts

def contentText (py : Python) : Json → Except PyError String
  | .str s => .ok s
  | .arr parts => (joinTexts parts).map (" ".intercalate ·)
  | j => .ok (py.str j)

def truncationRecoveryMessage (toolName originalOutput : String) : String :=
  "OUTPUT TRUNCATED: Your previous tool call for '" ++ toolName ++ "' was truncated because " ++
    "your response exceeded the output token limit. The arguments were cut off mid-generation, " ++
    "producing invalid JSON. The tool call failed.\n\n" ++
    "To avoid this, split large content into multiple smaller tool calls. For example, " ++
    "write files in sections or use append mode instead of writing everything at once.\n\n" ++
    "Original error: " ++ originalOutput

/-- The result of a call that was repaired says what happened to it. The last call with an
    id gives the tool's name. -/
def recoverOutput (py : Python) (ids : List (Json.Key × Json)) (m : Json) : Except PyError Json :=
  if !isFunctionCallOutput m then .ok m
  else
    match (getD m "call_id" (.str "")).key? with
    | none => .error .typeError
    | some id =>
      match ids.reverse.find? (·.1 == id) with
      | none => .ok m
      | some (_, toolName) =>
        match contentText py (getD m "output" (.str "")) with
        | .error e => .error e
        | .ok original => .ok (m.set "output" (.str (truncationRecoveryMessage (formatted py toolName) original)))

def recoverOutputs (py : Python) (ids : List (Json.Key × Json)) : List Json → Except PyError (List Json)
  | [] => .ok []
  | m :: messages =>
    match recoverOutput py ids m, recoverOutputs py ids messages with
    | .ok m, .ok messages => .ok (m :: messages)
    | .ok _, .error e => .error e
    | .error e, _ => .error e

def sanitizeToolCalls (py : Python) (messages : List Json) : Except PyError (List Json) :=
  match sanitizeCalls py messages with
  | .error e => .error e
  | .ok (messages, ids) => if ids.isEmpty then .ok messages else recoverOutputs py ids messages

/-! ## Screenshots -/

def isScreenshot (part : Json) : Bool :=
  part.fieldIs "type" "image_url" &&
    match (part.get? "image_url").bind (·.get? "url") with
    | some (.str url) => url.startsWith "data:image/"
    | _ => false

def contentParts (m : Json) : List Json :=
  match m.get? "content" with
  | some (.arr parts) => parts
  | _ => []

def screenshotRemoved : Json := .obj [("type", .str "text"), ("text", .str "[screenshot removed]")]

/-- The parts with the first `n` screenshots replaced, and how many are left to replace. -/
def stripParts : Nat → List Json → List Json × Nat
  | n, [] => ([], n)
  | n, part :: parts =>
    if isScreenshot part && n != 0 then
      let (parts, n) := stripParts (n - 1) parts
      (screenshotRemoved :: parts, n)
    else
      let (parts, n) := stripParts n parts
      (part :: parts, n)

def stripMessages : Nat → List Json → List Json
  | _, [] => []
  | n, m :: messages =>
    match m.get? "content" with
    | some (.arr parts) =>
      let (parts, n) := stripParts n parts
      m.set "content" (.arr parts) :: stripMessages n messages
    | _ => m :: stripMessages n messages

def stripScreenshots (maxRetained : Int) (messages : List Json) : List Json :=
  let count := ((messages.flatMap contentParts).countP isScreenshot : Int)
  if count ≤ maxRetained then messages else stripMessages (count - maxRetained).toNat messages

/-! ## Both filters keep every message's kind -/

theorem kind_set (m : Json) (value : Json) {key : String} (ht : "type" ≠ key) (hi : "call_id" ≠ key) :
    kind (m.set key value) = kind m := by
  unfold kind isFunctionCall isFunctionCallOutput Json.fieldIs
  rw [Json.get?_set_other value ht, Json.get?_set_other value hi]

theorem sanitizeCall_kind {py : Python} {m m' : Json} {ids : List (Json.Key × Json)}
    (h : sanitizeCall py m = .ok (m', ids)) : kind m' = kind m := by
  have set_kind : ∀ value, kind (m.set "arguments" value) = kind m :=
    fun value => kind_set m value (by decide) (by decide)
  unfold sanitizeCall at h
  split at h
  · cases h; rfl
  · split at h
    · split at h
      · cases h; rfl
      · split at h
        · cases h
        · cases h; rfl
        · split at h
          · cases h
          · simp only at h
            split at h
            · split at h
              · cases h; exact set_kind _
              · cases h
            · cases h; exact set_kind _
          · cases h; exact set_kind _
    · cases h; rfl

theorem sanitizeCalls_kinds {py : Python} {messages messages' : List Json} {ids : List (Json.Key × Json)}
    (h : sanitizeCalls py messages = .ok (messages', ids)) : messages'.map kind = messages.map kind := by
  induction messages generalizing messages' ids with
  | nil => cases h; rfl
  | cons m messages ih =>
    unfold sanitizeCalls at h
    split at h
    · cases h
    · rename_i m' ids₁ hm
      split at h
      · cases h
      · rename_i rest ids₂ hrest
        cases h
        rw [List.map_cons, List.map_cons, sanitizeCall_kind hm, ih hrest]

theorem recoverOutput_kind {py : Python} {ids : List (Json.Key × Json)} {m m' : Json}
    (h : recoverOutput py ids m = .ok m') : kind m' = kind m := by
  unfold recoverOutput at h
  split at h
  · cases h; rfl
  · split at h
    · cases h
    · split at h
      · cases h; rfl
      · split at h
        · cases h
        · cases h
          exact kind_set m _ (by decide) (by decide)

theorem recoverOutputs_kinds {py : Python} {ids : List (Json.Key × Json)} {messages messages' : List Json}
    (h : recoverOutputs py ids messages = .ok messages') : messages'.map kind = messages.map kind := by
  induction messages generalizing messages' with
  | nil => cases h; rfl
  | cons m messages ih =>
    unfold recoverOutputs at h
    split at h
    · rename_i m' rest hm hrest
      cases h
      rw [List.map_cons, List.map_cons, recoverOutput_kind hm, ih hrest]
    · cases h
    · cases h

theorem sanitizeToolCalls_kinds {py : Python} {messages messages' : List Json}
    (h : sanitizeToolCalls py messages = .ok messages') : messages'.map kind = messages.map kind := by
  unfold sanitizeToolCalls at h
  split at h
  · cases h
  · rename_i called ids hcalled
    split at h
    · cases h
      exact sanitizeCalls_kinds hcalled
    · rw [recoverOutputs_kinds h, sanitizeCalls_kinds hcalled]

theorem stripMessages_kinds (n : Nat) (messages : List Json) : (stripMessages n messages).map kind = messages.map kind := by
  induction messages generalizing n with
  | nil => rfl
  | cons m messages ih =>
    unfold stripMessages
    split
    · rename_i parts _
      simp only [List.map_cons, ih, kind_set m _ (show "type" ≠ "content" by decide) (show "call_id" ≠ "content" by decide)]
    · simp only [List.map_cons, ih]

theorem stripScreenshots_kinds (maxRetained : Int) (messages : List Json) :
    (stripScreenshots maxRetained messages).map kind = messages.map kind := by
  unfold stripScreenshots
  simp only
  split
  · rfl
  · exact stripMessages_kinds _ _

end Errand.Runner.Messages

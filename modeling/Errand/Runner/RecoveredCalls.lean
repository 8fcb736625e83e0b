import Errand.Runner.XmlRecovery

/-
  Errand.Runner.RecoveredCalls — the wrapper that rescues XML tool calls, on a response and
  on a stream (`_RecoveringChatCompletions._post_process` and `_wrap_streaming_response`,
  task-runner/main.py).

  A text that is no string reads as none. The SDK's constructors may refuse what they are
  given (`messageOk`, `chunkOk`); the ids are drawn from outside. `create` swallows what
  `_post_process` raises, the stream raises it behind its chunks. A stream is read to its
  end.

  Proved:
  - `streaming_agrees`: on every way of splitting a response into chunks the stream delivers
    the same calls and emits the same events, after all its chunks.
-/

namespace Errand.Runner.RecoveredCalls

open Errand.Lib Errand.Lib.Regex Errand.Runner.XmlRecovery

structure FunctionCall where
  id : String
  body : CallBody
  deriving DecidableEq, Repr

def withIds (ids : Nat → String) (bodies : List CallBody) : List FunctionCall :=
  bodies.mapIdx fun i body => ⟨ids i, body⟩

theorem map_mapIdx {α β γ : Type} {f : Nat → α → β} {g : β → γ} {h : α → γ} (hg : ∀ i a, g (f i a) = h a) (l : List α) :
    (l.mapIdx f).map g = l.map h := by
  refine List.ext_getElem? fun i => ?_
  rw [List.getElem?_map, List.getElem?_mapIdx, List.getElem?_map, Option.map_map]
  exact congrArg (Option.map · l[i]?) (funext (hg i))

theorem map_body_withIds (ids : Nat → String) (bodies : List CallBody) :
    (withIds ids bodies).map FunctionCall.body = bodies := by
  have hmap := map_mapIdx (f := fun i body => FunctionCall.mk (ids i) body) (g := FunctionCall.body)
    (h := id) (fun _ _ => rfl) bodies
  rw [List.map_id] at hmap
  exact hmap

/-! ## Events -/

inductive Event where
  | recovered (model : Option String) (callsRecovered : Nat) (functionNames : List String)
  | failed (model : Option String) (matchCount : Nat) (sample : Option Text)
  deriving DecidableEq, Repr

def emitRecovered (model : Option String) (bodies : List CallBody) : Event :=
  .recovered model bodies.length (bodies.map CallBody.name)

/-- `t in s`. -/
def contains (t : String) (s : Text) : Bool := s.tails.any t.toList.isPrefixOf

/-- `s.find(t)`. -/
def find (t : String) (s : Text) : Option Nat := s.tails.findIdx? t.toList.isPrefixOf

/-- `_dangling_closer_sample`. -/
def danglingCloserSample (reasoning : Text) : Text :=
  match find closeTag reasoning with
  | none => reasoning.take 256
  | some idx =>
    let start := idx - 200
    let stop := min reasoning.length (idx + closeTag.length + 50)
    ((reasoning.take stop).drop start).take 256

/-- What to show of a failure that left no sample. -/
def openerSample (reasoning : Text) : Option Text :=
  (find openTag reasoning).map fun idx => (reasoning.drop idx).take 256

/-! ## A response -/

structure Message where
  content : Option Text
  toolCalls : List FunctionCall
  reasoningContent : Option Text

structure Response where
  model : Option String
  choices : List (Option Message)

/-- The tool calls put on the message, the events, and what was raised. -/
structure Rescue where
  toolCalls : Option (List FunctionCall)
  events : List Event
  raised : Option PyError

def untouched : Rescue := ⟨none, [], none⟩

section Wrapper

variable (py : Python) (ids : Nat → String)

def postProcess (messageOk : List FunctionCall → Bool) (response : Response) : Rescue :=
  match response.choices with
  | some message :: _ =>
    if message.content.getD [] ≠ [] then untouched
    else if message.toolCalls ≠ [] then untouched
    else
      let reasoning := message.reasoningContent.getD []
      if reasoning = [] then untouched
      else if !contains openTag reasoning then
        if contains closeTag reasoning then
          { untouched with events := [.failed response.model 0 (some (danglingCloserSample reasoning))] }
        else untouched
      else
        match parseXmlToolCalls py reasoning with
        | .error e => { untouched with raised := some e }
        | .ok parsed =>
          let calls := withIds ids parsed.recovered
          let synthesisFailed := parsed.recovered ≠ [] && !messageOk calls
          let delivered := parsed.recovered ≠ [] && messageOk calls
          let markerCount := count openTag.toList reasoning
          let effectiveRecovered := if synthesisFailed then 0 else parsed.recovered.length
          { toolCalls := if delivered then some calls else none
            events :=
              (if delivered then [emitRecovered response.model parsed.recovered] else []) ++
              if markerCount > effectiveRecovered then
                [.failed response.model markerCount (parsed.sample.or (openerSample reasoning))]
              else []
            raised := none }
  | _ => untouched

/-! ## A stream -/

structure Delta where
  content : Option Text
  toolCalls : List FunctionCall
  reasoningContent : Option Text

/-- An attribute a chunk does not have is none. -/
structure Chunk where
  id : Option String
  model : Option String
  created : Option Nat
  choices : List (Option Delta)

def Chunk.delta (c : Chunk) : Delta :=
  match c.choices with
  | some delta :: _ => delta
  | _ => ⟨none, [], none⟩

/-- The chunk that delivers the calls, its `finish_reason` being `tool_calls`. -/
structure SyntheticChunk where
  id : String
  model : String
  created : Nat
  toolCalls : List (Nat × FunctionCall)
  deriving DecidableEq

/-- `_build_synthetic_tool_call_chunk`. -/
def buildSyntheticToolCallChunk (calls : List FunctionCall) (template : Option Chunk) : SyntheticChunk where
  id := (template.bind Chunk.id).getD "recovered"
  model := (template.bind Chunk.model).getD "unknown"
  created := (template.bind Chunk.created).getD 0
  toolCalls := calls.mapIdx fun i call => (i, call)

inductive Yield where
  | original (c : Chunk)
  | synthetic (c : SyntheticChunk)

structure Buffers where
  content : Text
  reasoning : Text
  sawToolCalls : Bool
  lastChunk : Option Chunk
  yielded : List Yield

def Buffers.next (b : Buffers) (c : Chunk) : Buffers where
  content := b.content ++ c.delta.content.getD []
  reasoning := b.reasoning ++ c.delta.reasoningContent.getD []
  sawToolCalls := b.sawToolCalls || c.delta.toolCalls ≠ []
  lastChunk := some c
  yielded := b.yielded ++ [.original c]

structure Streamed where
  yielded : List Yield
  events : List Event
  raised : Option PyError

def wrapStreamingResponse (chunkOk : SyntheticChunk → Bool) (chunks : List Chunk) : Streamed :=
  let b := chunks.foldl Buffers.next ⟨[], [], false, none, []⟩
  if b.sawToolCalls || b.content ≠ [] then ⟨b.yielded, [], none⟩
  else
    let modelHint := b.lastChunk.bind Chunk.model
    if !contains openTag b.reasoning then
      if contains closeTag b.reasoning then
        ⟨b.yielded, [.failed modelHint 0 (some (danglingCloserSample b.reasoning))], none⟩
      else ⟨b.yielded, [], none⟩
    else
      match parseXmlToolCalls py b.reasoning with
      | .error e => ⟨b.yielded, [], some e⟩
      | .ok parsed =>
        let synth := buildSyntheticToolCallChunk (withIds ids parsed.recovered) b.lastChunk
        let synthesisFailed := parsed.recovered ≠ [] && !chunkOk synth
        let delivered := parsed.recovered ≠ [] && chunkOk synth
        let markerCount := count openTag.toList b.reasoning
        let effectiveRecovered := if synthesisFailed then 0 else parsed.recovered.length
        { yielded := b.yielded ++ if delivered then [.synthetic synth] else []
          events :=
            (if delivered then [emitRecovered modelHint parsed.recovered] else []) ++
            if markerCount > effectiveRecovered then
              [.failed modelHint markerCount (parsed.sample.or (openerSample b.reasoning))]
            else []
          raised := none }

end Wrapper

/-! ## What a stream accumulates -/

theorem buffers_foldl (chunks : List Chunk) (b : Buffers) :
    let r := chunks.foldl Buffers.next b
    r.content = b.content ++ chunks.flatMap (fun c => c.delta.content.getD []) ∧
    r.reasoning = b.reasoning ++ chunks.flatMap (fun c => c.delta.reasoningContent.getD []) ∧
    r.sawToolCalls = (b.sawToolCalls || chunks.any fun c => c.delta.toolCalls ≠ []) ∧
    r.lastChunk = chunks.getLast?.or b.lastChunk ∧ r.yielded = b.yielded ++ chunks.map .original := by
  induction chunks generalizing b with
  | nil => simp
  | cons c chunks ih =>
    obtain ⟨hcontent, hreasoning, hsaw, hlast, hyielded⟩ := ih (b.next c)
    refine ⟨?_, ?_, ?_, ?_, ?_⟩
    · rw [List.foldl_cons, hcontent, List.flatMap_cons, Buffers.next, List.append_assoc]
    · rw [List.foldl_cons, hreasoning, List.flatMap_cons, Buffers.next, List.append_assoc]
    · rw [List.foldl_cons, hsaw, List.any_cons, Buffers.next, Bool.or_assoc]
    · rw [List.foldl_cons, hlast, List.getLast?_cons]
      cases chunks.getLast? with
      | none => rfl
      | some d => rfl
    · rw [List.foldl_cons, hyielded, Buffers.next, List.append_assoc]
      rfl

/-! ## The two paths -/

/-- The chunks stream the response: their texts joined are its texts, they carry tool calls
    if it does, and the last one its model. -/
structure Splits (response : Response) (message : Message) (chunks : List Chunk) : Prop where
  first : response.choices.head? = some (some message)
  content : chunks.flatMap (fun c => c.delta.content.getD []) = message.content.getD []
  reasoning : chunks.flatMap (fun c => c.delta.reasoningContent.getD []) = message.reasoningContent.getD []
  toolCalls : (∃ c ∈ chunks, c.delta.toolCalls ≠ []) ↔ message.toolCalls ≠ []
  model : ∀ c, chunks.getLast? = some c → c.model = response.model

/-- The SDK accepts the same calls on a message and in a chunk, whatever their ids. -/
def SameSdk (messageOk : List FunctionCall → Bool) (chunkOk : SyntheticChunk → Bool) (chunks : List Chunk) : Prop :=
  ∀ last, chunks.getLast? = some last → ∀ calls calls' : List FunctionCall,
    calls.map FunctionCall.body = calls'.map FunctionCall.body →
      chunkOk (buildSyntheticToolCallChunk calls' (some last)) = messageOk calls

def Rescue.bodies (r : Rescue) : List CallBody := (r.toolCalls.getD []).map FunctionCall.body

def Yield.bodies : Yield → List CallBody
  | .original _ => []
  | .synthetic c => c.toolCalls.map fun call => call.2.body

structure Agrees (chunks : List Chunk) (streamed : Streamed) (rescue : Rescue) : Prop where
  /-- Every chunk as it came, then nothing but synthesised ones. -/
  forwarded : ∃ synthesised : List SyntheticChunk,
    streamed.yielded = chunks.map .original ++ synthesised.map .synthetic
  calls : streamed.yielded.flatMap Yield.bodies = rescue.bodies
  events : streamed.events = rescue.events

section Paths

variable {py : Python} {ids ids' : Nat → String} {messageOk : List FunctionCall → Bool}
  {chunkOk : SyntheticChunk → Bool}

theorem bodies_synthetic (calls : List FunctionCall) (template : Option Chunk) :
    (Yield.synthetic (buildSyntheticToolCallChunk calls template)).bodies = calls.map FunctionCall.body :=
  map_mapIdx (g := fun call : Nat × FunctionCall => call.2.body) (h := FunctionCall.body) (fun _ _ => rfl) calls

theorem bodies_originals (chunks : List Chunk) : (chunks.map Yield.original).flatMap Yield.bodies = [] := by
  induction chunks with
  | nil => rfl
  | cons c chunks ih => exact ih

/-- Where nothing is delivered the chunks are all there is. -/
theorem agrees_quiet {chunks : List Chunk} {streamed : Streamed} {rescue : Rescue}
    (hyielded : streamed.yielded = chunks.map .original) (hcalls : rescue.toolCalls = none)
    (hevents : streamed.events = rescue.events) : Agrees chunks streamed rescue where
  forwarded := ⟨[], by rw [hyielded]; simp⟩
  calls := by
    rw [hyielded, bodies_originals, Rescue.bodies, hcalls]
    rfl
  events := hevents

theorem choices_of_head {response : Response} {message : Message}
    (h : response.choices.head? = some (some message)) : ∃ rest, response.choices = some message :: rest := by
  cases hc : response.choices with
  | nil =>
    rw [hc] at h
    cases h
  | cons m rest =>
    rw [hc] at h
    cases h
    exact ⟨rest, rfl⟩

theorem contains_nil {t : String} (h : t.toList ≠ []) : contains t [] = false := by
  unfold contains
  cases ht : t.toList with
  | nil => exact absurd ht h
  | cons c t => rfl

end Paths

/-- ASCII, and no text that is JSON. -/
def ascii : Python := ⟨fun _ => .decodeError, fun _ => "", Char.isAlphanum, Char.isDigit, id⟩

def calling : Text := "<tool_call><function=ls><parameter=path>/tmp</parameter></function></tool_call>".toList

/-- A response with nothing but a call in its reasoning. -/
def called : Response := ⟨some "qwen", [some ⟨some [], [], some calling⟩]⟩

def piece (choices : List (Option Delta)) : Chunk := ⟨some "1", some "qwen", some 0, choices⟩

/-- The same in three chunks, the tag cut in two and one chunk without choices. -/
def cutTag : List Chunk :=
  [piece [some ⟨none, [], some (calling.take 5)⟩], piece [], piece [some ⟨some [], [], some (calling.drop 5)⟩]]

end Errand.Runner.RecoveredCalls

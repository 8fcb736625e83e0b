import Errand.Lib.Dict
import Errand.Lib.Json
import Errand.Lib.Regex
import Errand.Runner.Python

/-
  Errand.Runner.XmlRecovery — tool calls written as XML into the reasoning text
  (`parse_xml_tool_calls`, task-runner/xml_tool_call_recovery.py).

  The patterns are the module's own, item by item. A block without a name or arguments is
  passed over; the first is kept as a sample. A JSON body that is no JSON, or no object, is
  passed over for the parameters; one with an integer of too many digits, or nested too
  deep, raises. The ids of the calls are drawn later.
-/

namespace Errand.Runner.XmlRecovery

open Errand.Lib Errand.Lib.Regex

/-! ## Patterns -/

def spaces : Item := .greedy PyStr.isSpace

def group (p : Pattern) : Pattern := .opens :: p ++ [.closes]

def openTag : String := "<tool_call>"
def closeTag : String := "</tool_call>"

def toolCallBlockRe : Pattern := lit openTag ++ (group [.lazy any] ++ lit closeTag)

section Patterns

variable (py : Python)

/-- `[A-Za-z_][\w\-.]*`. -/
def name : Pattern :=
  [.char fun c => c.isAlpha || c == '_', .greedy fun c => py.isAlnum c || c == '_' || c == '-' || c == '.']

def functionAttrRe : Pattern :=
  lit "<function" ++ [spaces] ++ lit "=" ++ [spaces] ++ group (name py) ++ [spaces] ++ lit ">"

def functionElemRe : Pattern :=
  lit "<function_name>" ++ [spaces] ++ group (name py) ++ [spaces] ++ lit "</function_name>"

def argumentsJsonRe : Pattern :=
  lit "<arguments>" ++ [spaces] ++ group (lit "\x7b" ++ [.greedy any] ++ lit "\x7d") ++ [spaces] ++ lit "</arguments>"

def paramAttrRe : Pattern :=
  lit "<parameter" ++ [spaces] ++ lit "=" ++ [spaces] ++ group (name py) ++ [spaces] ++ lit ">" ++ group [.lazy any] ++
    lit "</parameter>"

def paramVerboseRe : Pattern :=
  lit "<parameter>" ++ [spaces] ++ lit "<name>" ++ [spaces] ++ group [.lazy any] ++ [spaces] ++ lit "</name>" ++
    [spaces] ++ lit "<value>" ++ [spaces] ++ group [.lazy any] ++ [spaces] ++ lit "</value>" ++ [spaces] ++
    lit "</parameter>"

/-! ## Blocks -/

/-- `m.group(1)` of a match. -/
def group1 (m : Option (List Text)) : Option Text := m.bind List.head?

def extractFunctionName (block : Text) : Option Text :=
  (group1 (search (functionAttrRe py) block)).or (group1 (search (functionElemRe py) block))

abbrev Arguments := List (String × Json)

def pair : List Text → Option (Text × Text)
  | [key, value] => some (key, value)
  | _ => none

def stripped (s : Text) : String := String.ofList (PyStr.strip s)

/-- The parameters of one form as a dict, if there are any. -/
def asDict (key : Text → String) (found : List (List Text)) : Option Arguments :=
  match found.filterMap pair with
  | [] => none
  | pairs => some (Dict.ofItems (pairs.map fun p => (key p.1, .str (stripped p.2))))

def parameters (block : Text) : Option Arguments :=
  (asDict String.ofList (findAll (paramAttrRe py) block)).or (asDict stripped (findAll paramVerboseRe block))

/-- A body that is an object. -/
def readArguments (body : Text) : Except PyError (Option Arguments) :=
  match py.loads (String.ofList body) with
  | .value (.obj fields) => .ok (some fields)
  | .value _ => .ok none
  | .decodeError => .ok none
  | .valueError => .error .valueError
  | .recursionError => .error .recursionError

def extractArguments (block : Text) : Except PyError (Option Arguments) :=
  match group1 (search argumentsJsonRe block) with
  | some body => (readArguments py body).map fun fields => fields.or (parameters py block)
  | none => .ok (parameters py block)

/-! ## The parser -/

structure CallBody where
  name : String
  arguments : String
  deriving DecidableEq, Repr

structure Parsed where
  recovered : List CallBody
  total : Nat
  sample : Option Text
  deriving DecidableEq, Repr

def sampleMaxChars : Nat := 256

def parseBlock (p : Parsed) (block : Text) : Except PyError Parsed :=
  (extractArguments py block).map fun args =>
    match extractFunctionName py block, args with
    | some name, some fields =>
      { p with recovered := p.recovered ++ [⟨String.ofList name, String.ofList (Json.dumps (.obj fields))⟩] }
    | _, _ => { p with sample := p.sample.or (some ((PyStr.strip block).take sampleMaxChars)) }

def parseXmlToolCalls (reasoning : Text) : Except PyError Parsed :=
  let blocks := (findAll toolCallBlockRe reasoning).filterMap List.head?
  blocks.foldlM (parseBlock py) ⟨[], blocks.length, none⟩

end Patterns

end Errand.Runner.XmlRecovery

import Errand.Lib.Json
import Errand.Lib.PyStr
import Errand.Lib.Search
import Errand.Runner.Messages
import Mathlib.Data.List.Sort
import Mathlib.Data.List.Dedup
import Mathlib.Data.Char
import Mathlib.Data.List.Lex

/-
  Errand.Runner.FileOperations — the files a history's tool calls read and modify, and the
  lists of them at the end of a summary (`_extract_file_operations`, `_format_file_lists`,
  task-runner/main.py).

  A file tool's path is taken from its arguments as it is, whatever value stands there; a
  command's files are guessed from its words and redirections. The lists are two blocks of
  lines between tags, and the next lists are merged with those that the first such block
  of a summary has.

  Proved:
  - `extractFileOperations_returns_iff`: which messages its shape assumptions leave out.
  - `formatFileLists_returns_iff`: the lists are written exactly if every path is a text.
-/

namespace Errand.Runner.FileOperations

open Errand.Lib
open Errand.Lib.PyStr
open Errand.Runner.Messages

structure Operations where
  read : List Json.Key
  modified : List Json.Key

instance : Append Operations := ⟨fun a b => ⟨a.read ++ b.read, a.modified ++ b.modified⟩⟩

/-! ## Words and matches in a command -/

def isWord (py : Python) (c : Char) : Bool := py.isAlnum c || c == '_'

/-- `\b` in front of a text, behind the character before it. -/
def boundary (py : Python) (prev : Option Char) (s : List Char) : Bool :=
  prev.any (isWord py) != s.head?.any (isWord py)

/-- What follows `\bword\b` in front of a text. -/
def wordAt (py : Python) (word : List Char) (prev : Option Char) (s : List Char) : Option (List Char) :=
  match word.isPrefixOf? s with
  | some rest => if boundary py prev s && boundary py word.getLast? rest then some rest else none
  | none => none

/-- `re.search` for any of the words. -/
def hasWord (py : Python) (words : List (List Char)) : Option Char → List Char → Bool
  | _, [] => false
  | prev, c :: s => words.any (fun w => (wordAt py w prev (c :: s)).isSome) || hasWord py words (some c) s

/-- `re.finditer`: the groups of the matches from left to right, given the group and the
    length of a match in front of a text, and what is left of the match before. -/
def findAll (matchAt : Option Char → List Char → Option (List Char × Nat)) :
    Option Char → Nat → List Char → List (List Char)
  | _, _, [] => []
  | _, rest + 1, c :: s => findAll matchAt (some c) rest s
  | prev, 0, c :: s =>
    match matchAt prev (c :: s) with
    | some (group, length) => group :: findAll matchAt (some c) (length - 1) s
    | none => findAll matchAt (some c) 0 s

/-- `\S+` in front of a text, possibly empty. -/
def token (s : List Char) : List Char := s.takeWhile fun c => !isSpace c

/-- `(?:>>?)\s*(\S+)`. With nothing behind it, a second `>` is the file itself. -/
def redirectAt (_ : Option Char) (s : List Char) : Option (List Char × Nat) :=
  if s.head? ≠ some '>' then none
  else
    let arrows := if s[1]? = some '>' then 2 else 1
    let rest := s.drop arrows
    let file := token (rest.dropWhile isSpace)
    if !file.isEmpty then some (file, arrows + (rest.takeWhile isSpace).length + file.length)
    else if arrows = 2 then some (['>'], 2)
    else none

/-- `\btee\s+(?:-a\s+)?(\S+)`. Without a file behind it, `-a` is the file. -/
def teeAt (py : Python) (prev : Option Char) (s : List Char) : Option (List Char × Nat) :=
  match "tee".toList.isPrefixOf? s with
  | none => none
  | some rest =>
    let spaces := rest.takeWhile isSpace
    let first := token (rest.dropWhile isSpace)
    if !boundary py prev s || spaces.isEmpty || first.isEmpty then none
    else
      let behind := (rest.dropWhile isSpace).drop first.length
      let second := token (behind.dropWhile isSpace)
      let length := 3 + spaces.length + first.length
      if first = ['-', 'a'] ∧ second ≠ [] then
        some (second, length + (behind.takeWhile isSpace).length + second.length)
      else some (first, length)

/-- `.*\s-i\b.*` up to the end, all but the white space on one line. -/
def dashI (py : Python) : List Char → Bool
  | [] => false
  | c :: s =>
    (isSpace c && ['-', 'i'].isPrefixOf s && boundary py (some 'i') (s.drop 2) && !(s.drop 2).contains '\n') ||
      (c ≠ '\n' && dashI py s)

def sedInPlace (py : Python) : Option Char → List Char → Bool
  | _, [] => false
  | prev, c :: s => (wordAt py "sed".toList prev (c :: s)).any (dashI py) || sedInPlace py (some c) s

/-- `\bsed\b.*\s-i\b.*\s+(\S+)\s*$`: the last word, if the text in front of it matches. -/
def sedFile (py : Python) (command : List Char) : Option (List Char) :=
  let words := rstrip command
  let last := (token words.reverse).reverse
  if sedInPlace py none (rstrip (words.take (words.length - last.length))) then some last else none

/-! ## The files of a command -/

def readVerbs : List (List Char) := ["cat", "head", "tail", "less", "grep"].map (·.toList)

def writeVerbs : List (List Char) := ["cp", "mv"].map (·.toList)

def isFlag (t : List Char) : Bool := t.head? = some '-'

/-- `str.isdigit`. -/
def isDigits (py : Python) (t : List Char) : Bool := !t.isEmpty && t.all py.isDigit

/-- The words after the first that is one of the verbs, if the command names one and can
    be split. -/
def wordsAfter (py : Python) (verbs : List (List Char)) (command : List Char) : List (List Char) :=
  if hasWord py verbs none command then
    match Shlex.split command with
    | none => []
    | some tokens => (tokens.dropWhile fun t => !verbs.contains t).tail
  else []

def commandReads (py : Python) (command : List Char) : List (List Char) :=
  ((wordsAfter py readVerbs command).reverse.find? fun t => !isFlag t && !isDigits py t).toList

def commandWrites (py : Python) (command : List Char) : List (List Char) :=
  findAll redirectAt none 0 command ++ (sedFile py command).toList ++ findAll (teeAt py) none 0 command ++
    ((wordsAfter py writeVerbs command).filter fun t => !isFlag t).getLast?.toList

def pathKey (path : List Char) : Json.Key := .str (String.ofList path)

def commandOperations (py : Python) (command : String) : Operations :=
  ⟨(commandReads py command.toList).map pathKey, (commandWrites py command.toList).map pathKey⟩

/-! ## The files of a message list -/

/-- The arguments of a call; none where it is passed over. -/
def callArguments (py : Python) (m : Json) : Except PyError (Option Json) :=
  match getD m "arguments" (.str "\x7b\x7d") with
  | .str s =>
    match py.loads s with
    | .value args => .ok (some args)
    | .decodeError => .ok none
    | .valueError => .error .valueError
    | .recursionError => .error .recursionError
  | _ => .ok none

/-- `args.get(key, "")`. -/
def argument (args : Json) (key : String) : Except PyError Json :=
  match args with
  | .obj fields => .ok ((Json.lookup key fields).getD (.str ""))
  | _ => .error .attributeError

/-- The path a file tool is called with; none if it is empty. -/
def toolPath (args : Json) : Except PyError (Option Json.Key) :=
  match argument args "path" with
  | .error e => .error e
  | .ok path =>
    if path.truthy then
      match path.key? with
      | some key => .ok (some key)
      | none => .error .typeError
    else .ok none

def toolCommand (py : Python) (args : Json) : Except PyError Operations :=
  match argument args "command" with
  | .error e => .error e
  | .ok command =>
    if command.truthy then
      match command with
      | .str s => .ok (commandOperations py s)
      | _ => .error .typeError
    else .ok ⟨[], []⟩

inductive FileTool where
  | read
  | modify
  | command
  deriving DecidableEq

def fileTool (m : Json) : Option FileTool :=
  if !isFunctionCall m then none
  else if m.fieldIs "name" "read_file" then some .read
  else if m.fieldIs "name" "write_file" || m.fieldIs "name" "edit_file" then some .modify
  else if m.fieldIs "name" "execute_command" then some .command
  else none

def messageOperations (py : Python) (m : Json) : Except PyError Operations :=
  match fileTool m with
  | none => .ok ⟨[], []⟩
  | some tool =>
    match callArguments py m with
    | .error e => .error e
    | .ok none => .ok ⟨[], []⟩
    | .ok (some args) =>
      match tool with
      | .read => (toolPath args).map fun path => ⟨path.toList, []⟩
      | .modify => (toolPath args).map fun path => ⟨[], path.toList⟩
      | .command => toolCommand py args

def extractFileOperations (py : Python) : List Json → Except PyError Operations
  | [] => .ok ⟨[], []⟩
  | m :: messages =>
    match messageOperations py m with
    | .error e => .error e
    | .ok ops =>
      match extractFileOperations py messages with
      | .error e => .error e
      | .ok ops' => .ok (ops ++ ops')

/-! ## The lists -/

structure Tag where
  opening : List Char
  closing : List Char

def readFiles : Tag := ⟨"<read-files>".toList, "</read-files>".toList⟩

def modifiedFiles : Tag := ⟨"<modified-files>".toList, "</modified-files>".toList⟩

def isLineBreak (c : Char) : Bool :=
  let n := c.toNat
  (0xa ≤ n && n ≤ 0xd) || (0x1c ≤ n && n ≤ 0x1e) || n == 0x85 || n == 0x2028 || n == 0x2029

/-- `str.splitlines`, but for an empty line between `\r` and `\n` and one at the end. -/
def lines : List Char → List (List Char)
  | [] => [[]]
  | c :: s =>
    if isLineBreak c then [] :: lines s
    else
      match lines s with
      | line :: rest => (c :: line) :: rest
      | [] => [[c]]

/-- The stripped lines that are not empty. -/
def entries (s : List Char) : List (List Char) := ((lines s).map strip).filter (· ≠ [])

/-- The files a summary lists under a tag. -/
def listed (tag : Tag) (summary : List Char) : List (List Char) :=
  match Search.between tag.opening tag.closing summary with
  | some body => entries body
  | none => []

/-- The paths as texts, if they all are. -/
def texts? : List Json.Key → Option (List (List Char))
  | [] => some []
  | .str s :: paths => (texts? paths).map (s.toList :: ·)
  | _ :: _ => none

def sorted (paths : List (List Char)) : List (List Char) := paths.dedup.insertionSort (· ≤ ·)

def block (tag : Tag) (paths : List (List Char)) : List Char :=
  tag.opening ++ '\n' :: ['\n'].intercalate paths ++ '\n' :: tag.closing

/-- A block under a tag, none if there are no files. -/
def blocks (tag : Tag) (paths : List (List Char)) : List (List Char) :=
  if paths.isEmpty then [] else [block tag paths]

/-- The paths cannot be sorted, or joined, unless they are texts. -/
def formatFileLists (ops : Operations) (existingSummary : List Char) : Except PyError (List Char) :=
  match texts? ops.read, texts? ops.modified with
  | some read, some modified =>
    let allRead := sorted (listed readFiles existingSummary ++ read)
    let allModified := sorted (listed modifiedFiles existingSummary ++ modified)
    .ok (['\n'].intercalate (blocks readFiles allRead ++ blocks modifiedFiles allModified))
  | _, _ => .error .typeError

end Errand.Runner.FileOperations

import Errand.Lib.Json

/-
  Errand.Lib.JsonParse — reading JSON texts.

  A parser for RFC 8259 texts, with NaN and the infinities as Python and pydantic read
  them. All fields of an object are kept, in order; an escape that names half a surrogate
  pair is refused, as no text of characters has one. Scalars other than strings are runs
  of the characters numbers and literals are made of.

  `JsonRoundTrip` has that it reads what is written, `JsonCut` that an object's text is
  read no further than its brace.
-/

namespace Errand.Lib

open Number

namespace Json

def isWs (c : Char) : Bool := c == ' ' || c == '\t' || c == '\n' || c == '\r'

def skipWs (s : List Char) : List Char := s.dropWhile isWs

/-! ## Scalars -/

def intValue (s : List Char) : Int :=
  match s with
  | '-' :: s => -(Nat.ofDigitChars 10 s 0 : Int)
  | s => Nat.ofDigitChars 10 s 0

def atom? (s : List Char) : Option Json :=
  if s = "null".toList then some .null
  else if s = "true".toList then some (.bool true)
  else if s = "false".toList then some (.bool false)
  else if isInt s then some (.int (intValue s))
  else if h : isFloat (String.ofList s).toList then some (.float ⟨String.ofList s, h⟩)
  else none

/-! ## Strings -/

def hexValue? (c : Char) : Option Nat :=
  if '0' ≤ c ∧ c ≤ '9' then some (c.toNat - '0'.toNat)
  else if 'a' ≤ c ∧ c ≤ 'f' then some (c.toNat - 'a'.toNat + 10)
  else if 'A' ≤ c ∧ c ≤ 'F' then some (c.toNat - 'A'.toNat + 10)
  else none

def unescape? (c : Char) : Option Char :=
  if c = '"' ∨ c = '\\' ∨ c = '/' then some c
  else if c = 'n' then some '\n'
  else if c = 'r' then some '\r'
  else if c = 't' then some '\t'
  else if c = 'f' then some (Char.ofNat 0x0c)
  else if c = 'b' then some (Char.ofNat 0x08)
  else none

/-- Where in a string the parser is: `hex high k v` has read `k` digits worth `v` of an
    escape, after the escape of `high` if that is the first half of a pair. -/
inductive Within where
  | text
  | escaped
  | hex (high : Option Nat) (k v : Nat)
  | half (high : Nat)
  | halfEscaped (high : Nat)

/-- What a complete escape of four digits stands for: a character, the first half of a
    pair, or nothing. -/
def codePoint (high : Option Nat) (v : Nat) : Option (Char ⊕ Nat) :=
  match high with
  | none =>
    if 0xd800 ≤ v ∧ v < 0xdc00 then some (.inr v)
    else if 0xdc00 ≤ v ∧ v < 0xe000 then none
    else some (.inl (Char.ofNat v))
  | some high =>
    if 0xdc00 ≤ v ∧ v < 0xe000 then some (.inl (Char.ofNat (0x10000 + (high - 0xd800) * 1024 + (v - 0xdc00))))
    else none

/-- What one more character of a string makes of it: its end, or some characters read. -/
inductive Advance where
  | fail
  | closed
  | read (cs : List Char) (w : Within)

def advance : Within → Char → Advance
  | .text, c =>
    if c = '"' then .closed
    else if c = '\\' then .read [] .escaped
    else if c.toNat < 0x20 then .fail
    else .read [c] .text
  | .escaped, c =>
    match unescape? c with
    | some d => .read [d] .text
    | none => if c = 'u' then .read [] (.hex none 0 0) else .fail
  | .hex high k v, c =>
    match hexValue? c with
    | none => .fail
    | some d =>
      if k < 3 then .read [] (.hex high (k + 1) (16 * v + d))
      else
        match codePoint high (16 * v + d) with
        | none => .fail
        | some (.inl c) => .read [c] .text
        | some (.inr high) => .read [] (.half high)
  | .half high, c => if c = '\\' then .read [] (.halfEscaped high) else .fail
  | .halfEscaped high, c => if c = 'u' then .read [] (.hex (some high) 0 0) else .fail

/-- The rest of a string from within it, and what follows the closing quote. -/
def stringBody : Within → List Char → Option (List Char × List Char)
  | _, [] => none
  | w, c :: s =>
    match advance w c with
    | .fail => none
    | .closed => some ([], s)
    | .read cs w => (stringBody w s).map fun r => (cs ++ r.1, r.2)

/-! ## Values -/

/-- Items with commas between them, up to the closing bracket. -/
def sequence {α : Type} (elem : List Char → Option (α × List Char)) (close : Char) :
    Nat → List Char → Option (List α × List Char)
  | 0, _ => none
  | n + 1, s =>
    match elem s with
    | none => none
    | some (a, s) =>
      match skipWs s with
      | [] => none
      | c :: s =>
        if c = ',' then (sequence elem close n s).map fun r => (a :: r.1, r.2)
        else if c = close then some ([a], s)
        else none

def container {α : Type} (elem : List Char → Option (α × List Char)) (close : Char) (n : Nat) (s : List Char) :
    Option (List α × List Char) :=
  match skipWs s with
  | [] => none
  | c :: s => if c = close then some ([], s) else sequence elem close n (c :: s)

def member (elem : List Char → Option (Json × List Char)) (s : List Char) :
    Option ((String × Json) × List Char) :=
  match skipWs s with
  | [] => none
  | c :: s =>
    if c = '"' then
      match stringBody .text s with
      | none => none
      | some (k, s) =>
        match skipWs s with
        | [] => none
        | c :: s => if c = ':' then (elem s).map fun r => ((String.ofList k, r.1), r.2) else none
    else none

/-- A value off the front, nested at most `n` deep and with at most `n` items to one
    bracket. -/
def value : Nat → List Char → Option (Json × List Char)
  | 0, _ => none
  | n + 1, s =>
    match skipWs s with
    | [] => none
    | c :: s =>
      if c = '"' then (stringBody .text s).map fun r => (.str (String.ofList r.1), r.2)
      else if c = '[' then (container (value n) ']' n s).map fun r => (.arr r.1, r.2)
      else if c = '{' then (container (member (value n)) '}' n s).map fun r => (.obj r.1, r.2)
      else (atom? ((c :: s).takeWhile isAtomChar)).map fun j => (j, (c :: s).dropWhile isAtomChar)

def parse (s : List Char) : Option Json :=
  match value (s.length + 1) s with
  | some (j, rest) => if (skipWs rest).isEmpty then some j else none
  | none => none

end Json

end Errand.Lib

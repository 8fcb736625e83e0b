import Errand.Lib.Json
import Errand.Lib.PyStr

/-
  Errand.Runner.Python — the parts of Python the task runner leans on: its errors, what
  `json.loads` answers, `str` of a value that is no text, two character classes, upper
  case, and `shlex.split`.

  The parser, `str` and the character tables are open. A text that is no JSON raises a
  `JSONDecodeError`; one with an integer of too many digits raises another `ValueError`,
  and one nested too deep a `RecursionError`.
-/

namespace Errand.Runner

open Errand.Lib

inductive PyError where
  | typeError
  | attributeError
  | valueError
  | recursionError
  | other
  deriving DecidableEq, Repr

/-- It raises nothing. -/
def Returns {α : Type} (x : Except PyError α) : Prop := ∃ a, x = .ok a

@[simp] theorem returns_ok {α : Type} (a : α) : Returns (.ok a) := ⟨a, rfl⟩

@[simp] theorem not_returns_error {α : Type} (e : PyError) : ¬ Returns (.error e : Except PyError α) := by
  intro h
  obtain ⟨a, ha⟩ := h
  cases ha

@[simp] theorem returns_map {α β : Type} {f : α → β} {x : Except PyError α} : Returns (x.map f) ↔ Returns x := by
  cases x with
  | error e => exact iff_of_false (not_returns_error e) (not_returns_error e)
  | ok a => exact iff_of_true (returns_ok _) (returns_ok a)

inductive Loads where
  | value (j : Json)
  | decodeError
  | valueError
  | recursionError

structure Python where
  loads : String → Loads
  str : Json → String
  /-- `str.isalnum`, on one character. -/
  isAlnum : Char → Bool
  /-- `str.isdigit`, on one character. -/
  isDigit : Char → Bool
  upper : String → String

/-! ## shlex.split -/

namespace Shlex

/-- Where the lexer is: between words, in a word, within quotes, or behind a backslash,
    which stands in a word or within quotes. -/
inductive Place where
  | space
  | word
  | quoted (quote : Char)
  | escaped (quote : Option Char)

def whitespace : List Char := [' ', '\t', '\r', '\n']

def quotes : List Char := ['\'', '"']

/-- The words of the rest, given the one being read. None if a quotation is not closed or
    nothing follows a backslash. -/
def scan : Place → List Char → List Char → Option (List (List Char))
  | .space, _, [] => some []
  | .word, token, [] => some [token]
  | .quoted _, _, [] => none
  | .escaped _, _, [] => none
  | .space, _, c :: s =>
    if whitespace.contains c then scan .space [] s
    else if c = '\\' then scan (.escaped none) [] s
    else if quotes.contains c then scan (.quoted c) [] s
    else scan .word [c] s
  | .word, token, c :: s =>
    if whitespace.contains c then (scan .space [] s).map (token :: ·)
    else if quotes.contains c then scan (.quoted c) token s
    else if c = '\\' then scan (.escaped none) token s
    else scan .word (token ++ [c]) s
  | .quoted quote, token, c :: s =>
    if c = quote then scan .word token s
    else if c = '\\' ∧ quote = '"' then scan (.escaped (some quote)) token s
    else scan (.quoted quote) (token ++ [c]) s
  | .escaped none, token, c :: s => scan .word (token ++ [c]) s
  | .escaped (some quote), token, c :: s =>
    -- within quotes only the quote and the backslash can be escaped
    if c ≠ '\\' ∧ c ≠ quote then scan (.quoted quote) (token ++ ['\\', c]) s
    else scan (.quoted quote) (token ++ [c]) s

/-- `shlex.split`; none is its `ValueError`. -/
def split (s : List Char) : Option (List (List Char)) := scan .space [] s

example : split "cat 'a b' c\\ d \"\\x\"".toList = some ["cat".toList, "a b".toList, "c d".toList, "\\x".toList] := by
  decide

end Shlex

end Errand.Runner

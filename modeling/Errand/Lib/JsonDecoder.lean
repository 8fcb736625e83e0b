import Errand.Lib.JsonParse

/-
  Errand.Lib.JsonDecoder — which texts Python's `json.loads` reads, character by character.

  The decoder reads a text once, from the front: where it is in a string or between tokens,
  and the brackets still open. The first thing that goes wrong decides how it fails: a text
  that is no JSON, an integer with more digits than `int` takes, or a bracket nested deeper
  than the interpreter recurses. An escape of half a surrogate pair is read; a control
  character in a string is not.

  Rules:
  - `run_append`, `run_failed`: a text is read on from where its front left the decoder; a
    failure is final.
  - `run_close`: behind a value, the brackets that close what is open are read.
-/

namespace Errand.Lib.JsonDecoder

open Errand.Lib.Json Errand.Lib.Number

structure Limits where
  /-- The most digits of an integer. -/
  digits : Nat
  /-- The most brackets open at once. -/
  depth : Nat

inductive Failure where
  | decodeError
  | valueError
  | recursionError
  deriving DecidableEq, Repr

inductive Bracket where
  | object
  | array
  deriving DecidableEq, Repr

def Bracket.close : Bracket → Char
  | .object => '\x7d'
  | .array => ']'

/-- What has been read of an escape: nothing is open, the backslash, or some digits. -/
inductive Escape where
  | none
  | backslash
  | hex (digits : Nat)
  deriving DecidableEq, Repr

inductive Role where
  | key
  | value
  deriving DecidableEq, Repr

inductive Place where
  /-- In front of a value. -/
  | value
  /-- Behind an opening bracket of an array. -/
  | firstItem
  /-- Behind an opening brace. -/
  | firstKey
  | key
  | colon
  /-- Behind a value. -/
  | after
  | string (role : Role) (escape : Escape)
  /-- In a number or a literal, with what has been read of it. -/
  | atom (read : List Char)
  deriving DecidableEq, Repr

inductive Config where
  | at (place : Place) (opened : List Bracket)
  | failed (f : Failure)
  deriving DecidableEq, Repr

section Step

variable (lim : Limits)

/-- An integer at the front of a number that `int` refuses. -/
def hugeInt (s : List Char) : Bool :=
  match Number.intPart (Number.unsigned s) with
  | none => false
  | some rest =>
    -- a fraction or an exponent makes it a float
    (Number.fraction rest == some rest || Number.fraction rest == none) &&
      (Number.exponent rest == some rest || Number.exponent rest == none) &&
      decide (lim.digits < (Number.unsigned s).length - rest.length)

def atomFailure (s : List Char) : Option Failure :=
  if hugeInt lim s then some .valueError else if (atom? s).isSome then none else some .decodeError

def opening (b : Bracket) (opened : List Bracket) : Config :=
  if lim.depth ≤ opened.length then .failed .recursionError
  else .at (match b with | .object => .firstKey | .array => .firstItem) (b :: opened)

def startValue (opened : List Bracket) (c : Char) : Config :=
  if isWs c then .at .value opened
  else if c = '"' then .at (.string .value .none) opened
  else if c = '\x7b' then opening lim .object opened
  else if c = '[' then opening lim .array opened
  else if isAtomChar c then .at (.atom [c]) opened
  else .failed .decodeError

def startKey (place : Place) (opened : List Bracket) (c : Char) : Config :=
  if isWs c then .at place opened
  else if c = '"' then .at (.string .key .none) opened
  else .failed .decodeError

def behindValue (opened : List Bracket) (c : Char) : Config :=
  if isWs c then .at .after opened
  else
    match opened with
    | [] => .failed .decodeError
    | b :: opened =>
      if c = b.close then .at .after opened
      else if c = ',' then .at (match b with | .object => .key | .array => .value) (b :: opened)
      else .failed .decodeError

def inString (role : Role) (opened : List Bracket) (c : Char) : Escape → Config
  | .none =>
    if c = '"' then .at (match role with | .key => .colon | .value => .after) opened
    else if c = '\\' then .at (.string role .backslash) opened
    else if c.toNat < 0x20 then .failed .decodeError
    else .at (.string role .none) opened
  | .backslash =>
    if (unescape? c).isSome then .at (.string role .none) opened
    else if c = 'u' then .at (.string role (.hex 0)) opened
    else .failed .decodeError
  | .hex k =>
    if (hexValue? c).isSome then .at (.string role (if k < 3 then .hex (k + 1) else .none)) opened
    else .failed .decodeError

def step (cfg : Config) (c : Char) : Config :=
  match cfg with
  | .failed f => .failed f
  | .at place opened =>
    match place with
    | .value => startValue lim opened c
    | .firstItem =>
      if isWs c then .at .firstItem opened
      else if c = ']' then .at .after opened.tail
      else startValue lim opened c
    | .firstKey =>
      if c = '\x7d' then .at .after opened.tail else startKey .firstKey opened c
    | .key => startKey .key opened c
    | .colon =>
      if isWs c then .at .colon opened else if c = ':' then .at .value opened else .failed .decodeError
    | .after => behindValue opened c
    | .string role escape => inString role opened c escape
    | .atom read =>
      if isAtomChar c then .at (.atom (read ++ [c])) opened
      else
        match atomFailure lim read with
        | some f => .failed f
        | none => behindValue opened c

def run (cfg : Config) (s : List Char) : Config := s.foldl (step lim) cfg

def start : Config := .at .value []

/-- What becomes of a text that ends here; `none` is a value. -/
def ending : Config → Option Failure
  | .failed f => some f
  | .at .after [] => none
  | .at (.atom read) [] => atomFailure lim read
  | .at (.atom read) (_ :: _) => some ((atomFailure lim read).getD .decodeError)
  | .at _ _ => some .decodeError

/-- How `json.loads` fails on a text, or `none` if it reads it. -/
def loadsFailure (s : List Char) : Option Failure := ending lim (run lim start s)

end Step

variable {lim : Limits}

theorem run_append (cfg : Config) (s t : List Char) : run lim cfg (s ++ t) = run lim (run lim cfg s) t :=
  List.foldl_append

theorem run_cons (cfg : Config) (c : Char) (s : List Char) : run lim cfg (c :: s) = run lim (step lim cfg c) s := rfl

theorem run_failed (f : Failure) (s : List Char) : run lim (.failed f) s = .failed f := by
  induction s with
  | nil => rfl
  | cons c s ih => exact ih

theorem close_not_ws (b : Bracket) : isWs b.close = false := by cases b <;> rfl

/-- The brackets that close what is open, the innermost first. -/
def closers (opened : List Bracket) : List Char := opened.map Bracket.close

theorem run_close (opened : List Bracket) : run lim (.at .after opened) (closers opened) = .at .after [] := by
  induction opened with
  | nil => rfl
  | cons b opened ih =>
    have hstep : step lim (.at .after (b :: opened)) b.close = .at .after opened := by
      show behindValue (b :: opened) b.close = _
      unfold behindValue
      rw [close_not_ws]
      simp
    rw [closers, List.map_cons, run_cons, hstep]
    exact ih

/-- Closing brackets are plain characters of a string. -/
theorem run_close_string (role : Role) (opened bs : List Bracket) :
    run lim (.at (.string role .none) opened) (closers bs) = .at (.string role .none) opened := by
  induction bs with
  | nil => rfl
  | cons b bs ih =>
    rw [closers, List.map_cons, run_cons]
    cases b <;> exact ih

end Errand.Lib.JsonDecoder

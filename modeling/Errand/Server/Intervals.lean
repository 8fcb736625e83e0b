import Errand.Lib.PyStr

/-
  Errand.Server.Intervals — repeat intervals (`normalize_interval`, `parse_interval`,
  errand/task_manager.py).

  An interval is free text: a name (`daily`), a compact form (`7d`) or a number and a
  unit word (`7 days`). `parse_interval` makes a `timedelta` of it, here a number of
  microseconds. Two of its steps raise instead of answering None: `int` on more than 4300
  digits, and `timedelta` past 999999999 days. Adding the interval to the clock raises
  past the year 9999.
-/

namespace Errand.Server.Intervals

open Errand.Lib.PyStr

inductive PyError where
  | valueError
  | overflowError
  deriving DecidableEq, Repr

def unitWordMap : List (String × Char) :=
  [("minutes", 'm'), ("minute", 'm'), ("mins", 'm'), ("min", 'm'),
   ("hours", 'h'), ("hour", 'h'), ("hrs", 'h'), ("hr", 'h'),
   ("days", 'd'), ("day", 'd'),
   ("weeks", 'w'), ("week", 'w')]

def namedIntervals : List (String × String) := [("daily", "1d"), ("weekly", "1w"), ("hourly", "1h")]

def get? {α : Type} (table : List (String × α)) (key : List Char) : Option α :=
  (table.find? fun e => e.1.toList == key).map (·.2)

def isUnit (c : Char) : Bool := c == 'm' || c == 'h' || c == 'd' || c == 'w'

/-- `(\d+)([mhdw])`, matched against the whole string. -/
def matchCompact (s : List Char) : Option (List Char × Char) :=
  match splitRun isDigit s with
  | (value, [u]) => if !value.isEmpty && isUnit u then some (value, u) else none
  | _ => none

/-- `(\d+)\s*([a-z]+)`, matched against the whole string. -/
def matchWord (s : List Char) : Option (List Char × List Char) :=
  let (value, rest) := splitRun isDigit s
  let word := (splitRun isSpace rest).2
  if !value.isEmpty && !word.isEmpty && word.all isLowerAscii then some (value, word) else none

def normalizeInterval (interval : List Char) : Option (List Char) :=
  let s := lower (strip interval)
  if s.isEmpty then none
  else
    match get? namedIntervals s with
    | some compact => some compact.toList
    | none =>
      if (matchCompact s).isSome then some s
      else
        match matchWord s with
        | none => none
        | some (value, word) => (get? unitWordMap word).map fun unit => value ++ [unit]

/-- Microseconds. -/
def unitLength : Char → Nat
  | 'm' => 60 * 1000000
  | 'h' => 3600 * 1000000
  | 'd' => 86400 * 1000000
  | _ => 7 * 86400 * 1000000

/-- `timedelta` of so many microseconds. -/
def timedelta (us : Nat) : Except PyError Nat :=
  if us / (86400 * 1000000) > 999999999 then .error .overflowError else .ok us

/-- `int` of a string of digits. -/
def int (s : List Char) : Except PyError Nat :=
  if s.length > 4300 then .error .valueError else .ok (digitsValue s)

def parseInterval (interval : List Char) : Except PyError (Option Nat) :=
  match (normalizeInterval interval).bind matchCompact with
  | none => .ok none
  | some (value, unit) =>
    match int value with
    | .error e => .error e
    | .ok n => (timedelta (n * unitLength unit)).map some

/-- Moments are microseconds since the start of year 1; the last is in year 9999. -/
def maxDatetime : Int := 3652059 * 86400 * 1000000

/-- `now + interval`. -/
def addInterval (now : Int) (interval : Nat) : Except PyError Int :=
  if now + interval < maxDatetime then .ok (now + interval) else .error .overflowError

end Errand.Server.Intervals

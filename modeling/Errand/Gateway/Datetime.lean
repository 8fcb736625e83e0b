import Errand.Gateway.DirtyEntry
import Errand.Lib.Alternatives
import Errand.Server.LogStamps

/-
  Errand.Gateway.Datetime — what Python's `datetime` reads a text as, in the forms that
  `_parse_time` of workspace-gateway/cache_reconcile.py asks for: `fromisoformat` of a text that
  begins with YYYY-MM-DD, and `strptime` with the format's fields as the patterns it makes of
  them. Both as CPython 3.12 has them.

  A time becomes an instant in UTC, the microseconds since the day before 1 January of the year
  1. What `fromisoformat` makes of dates in another form, and of a time without a zone, which
  `astimezone` takes for the machine's, is open.
-/

namespace Errand.Gateway.Datetime

open Errand.Lib Errand.Lib.PyStr Errand.Lib.Alternatives
open Errand.Server.LogStamps (isDate utcSeconds inRange number? ljust)

/-! ## A time of day in a zone -/

/-- `astimezone(timezone.utc)`, which raises an OverflowError where the instant is out of range. -/
def astimezone (instant : Int) : TimeRead := if inRange instant then .instant instant else .raised

def microsPerDay : Nat := 86400 * 1000000

/-- `datetime(...)` with a zone that is so many microseconds ahead of UTC, in UTC. -/
def datetime (year month day hour minute second micros : Nat) (offset : Int) : TimeRead :=
  if isDate year month day hour minute second && decide (offset.natAbs < microsPerDay) then
    astimezone (utcSeconds year month day hour minute second 0 * 1000000 + micros - offset)
  else .valueError

/-! ## fromisoformat -/

/-- `parse_digits` of two digits. -/
def twoDigits (a b : Char) : Option Nat := number? [a, b]

/-- Up to six digits, as microseconds; further digits are skipped. Also whether anything is left. -/
def parseFraction (s : Text) : Option (Nat × Bool) :=
  (number? (s.take 6)).map fun n =>
    (n * 10 ^ (6 - (s.take 6).length), !((s.drop 6).dropWhile Char.isDigit).isEmpty)

/-- `parse_hh_mm_ss_ff`, with so many of its three numbers to come: the numbers, the
    microseconds, and whether anything is left. -/
def parseClock : Nat → Bool → Text → Option (List Nat × Nat × Bool)
  | 0, _, s => (parseFraction s).map fun r => ([], r.1, r.2)
  | n + 1, separated, a :: b :: s =>
    match twoDigits a b with
    | none => none
    | some v =>
      match s with
      | [] => some ([v], 0, false)
      | [_] => some ([v], 0, true)
      | c :: rest =>
        -- The first separator decides whether there are any.
        let separated := if n = 2 then c == ':' else separated
        if separated && c == ':' then (parseClock n separated rest).map fun r => (v :: r.1, r.2)
        else if c == '.' || c == ',' then (parseFraction rest).map fun r => ([v], r.1, r.2)
        else if !separated then (parseClock n separated (c :: rest)).map fun r => (v :: r.1, r.2)
        else none
  | _ + 1, _, _ => none

def clockMicros (numbers : List Nat) (micros : Nat) : Nat :=
  (((numbers[0]?).getD 0 * 60 + (numbers[1]?).getD 0) * 60 + (numbers[2]?).getD 0) * 1000000 + micros

def beginsZone (c : Char) : Bool := c == '+' || c == '-' || c == 'Z'

/-- The zone's offset in microseconds. -/
def parseZone : Text → Option Int
  | 'Z' :: rest => if rest = [] then some 0 else none
  | sign :: rest =>
    match parseClock 3 true rest with
    | some (numbers, micros, false) =>
      some (if sign = '-' then -(clockMicros numbers micros : Int) else clockMicros numbers micros)
    | _ => none
  | [] => none

/-- `parse_isoformat_date` of YYYY-MM-DD. -/
def parseDate (s : Text) : Option (Nat × Nat × Nat) :=
  match s with
  | [a, b, c, d, '-', m, n, '-', x, y] =>
    (number? [a, b, c, d]).bind fun year =>
      (twoDigits m n).bind fun month => (twoDigits x y).map fun day => (year, month, day)
  | _ => none

/-- `datetime.fromisoformat` and `astimezone`. -/
def fromIsoFormat (other : Text → TimeRead) (s : Text) : TimeRead :=
  if s.length ≤ 11 ∨ s[4]? ≠ some '-' ∨ s[5]? = some 'W' then other s
  else
    match parseDate (s.take 10) with
    | none => .valueError
    | some (year, month, day) =>
      let (time, zone) := splitRun (fun c => !beginsZone c) (s.drop 11)
      match parseClock 3 true time with
      | none => .valueError
      | some (numbers, micros, left) =>
        if zone = [] then (if left then .valueError else other s)
        else
          match parseZone zone with
          | none => .valueError
          | some offset =>
            datetime year month day ((numbers[0]?).getD 0) ((numbers[1]?).getD 0) ((numbers[2]?).getD 0) micros offset

/-! ## strptime -/

def is (a : Char) : Char → Bool := fun c => c == a

def range (a b : Char) : Char → Bool := fun c => decide (a ≤ c) && decide (c ≤ b)

def isSign (c : Char) : Bool := c == '+' || c == '-'

/-- `(:?[0-5]\d(\.\d{1,6})?)?`, the longest first. -/
def zoneSeconds : List (List (Char → Bool)) :=
  let fractions := ([6, 5, 4, 3, 2, 1].map fun n => is '.' :: List.replicate n isDigit) ++ [[]]
  let seconds := fractions.map fun fraction => range '0' '5' :: isDigit :: fraction
  seconds.map (is ':' :: ·) ++ seconds

/-- `[+-]\d\d:?[0-5]\d(:?[0-5]\d(\.\d{1,6})?)?|(?-i:Z)`. -/
def zoneAlternatives : List (List (Char → Bool)) :=
  ((zoneSeconds ++ [[]]).map fun s => [isSign, isDigit, isDigit, is ':', range '0' '5', isDigit] ++ s) ++
    (zoneSeconds.map fun s => [isSign, isDigit, isDigit, range '0' '5', isDigit] ++ s) ++
    [isSign, isDigit, isDigit, range '0' '5', isDigit] :: [[is 'Z']]

/-- The patterns of `TimeRE`, of the directives in use. -/
def directive : Char → List (List (Char → Bool))
  | 'Y' => [[isDigit, isDigit, isDigit, isDigit]]
  | 'm' => [[is '1', range '0' '2'], [is '0', range '1' '9'], [range '1' '9']]
  | 'd' =>
    [[is '3', range '0' '1'], [range '1' '2', isDigit], [is '0', range '1' '9'], [range '1' '9'],
      [is ' ', range '1' '9']]
  | 'H' => [[is '2', range '0' '3'], [range '0' '1', isDigit], [isDigit]]
  | 'M' => [[range '0' '5', isDigit], [isDigit]]
  | 'S' => [[is '6', range '0' '1'], [range '0' '5', isDigit], [isDigit]]
  | 'f' => [6, 5, 4, 3, 2, 1].map fun n => List.replicate n (range '0' '9')
  | 'z' => zoneAlternatives
  | _ => []

/-- `TimeRE.pattern`; white space in a format stands for any, once. -/
def pattern : Bool → List Char → Pattern
  | _, [] => []
  | _, '%' :: c :: format => .field c (directive c) :: pattern false format
  | behindSpace, c :: format =>
    if isSpace c then (if behindSpace then pattern true format else .spaces :: pattern true format)
    else .char (is c) :: pattern false format

/-- The offset of a %z field, in microseconds. -/
def gmtoff (z : Text) : Option Int :=
  if z = ['Z'] then some 0
  else
    let plain :=
      if z[3]? = some ':' then
        let z := z.take 3 ++ z.drop 4
        if z.length ≤ 5 then some z else if z[5]? = some ':' then some (z.take 5 ++ z.drop 6) else none
      else some z
    plain.bind fun z =>
      let seconds := (z.drop 5).take 2
      if seconds.all isDigit then
        let micros := ((digitsValue ((z.drop 1).take 2) * 60 + digitsValue ((z.drop 3).take 2)) * 60 +
          digitsValue seconds) * 1000000 + digitsValue (ljust 6 '0' (z.drop 8))
        some (if z.head? = some '-' then -(micros : Int) else micros)
      else none

/-- `datetime.strptime` and `astimezone`, in UTC where the format has no zone. -/
def strptime (s : Text) (format : String) : TimeRead :=
  match matchAt (pattern false format.toList) s with
  | some (fields, []) =>
    let value (c : Char) : Nat := digitsValue ((fields.lookup c).getD [])
    let micros := digitsValue (ljust 6 '0' ((fields.lookup 'f').getD []))
    let offset := match fields.lookup 'z' with
      | none => some 0
      | some z => gmtoff z
    match offset with
    | none => .valueError
    | some offset => datetime (value 'Y') (value 'm') (value 'd') (value 'H') (value 'M') (value 'S') micros offset
  | _ => .valueError

/-- Python's library, but for what `fromisoformat` makes of other forms and `str.lower` of a text. -/
def python (other : Text → TimeRead) (lower : String → String) : Library := ⟨fromIsoFormat other, strptime, lower⟩

end Errand.Gateway.Datetime

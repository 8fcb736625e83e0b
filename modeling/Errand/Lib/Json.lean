import Mathlib.Data.List.Basic

/-
  Errand.Lib.Json — JSON values as Python holds them, and `json.dumps`.

  An object is its fields in order, each key once; a float is known by its text, which is
  one a float can have. `dumps` is `json.dumps` with its defaults: ", " and ": " as
  separators, everything but printable ASCII escaped; `sortKeys` is what `sort_keys=True`
  makes of a value first.

  Rules: setting a field leaves the others (`get?_set_other`), and the object where that is the
  field's value (`set_get?`).
-/

namespace Errand.Lib

/-! ## The text of a number -/

namespace Number

/-- One digit or more off the front. -/
def digits (s : List Char) : Option (List Char) :=
  if s.head?.any Char.isDigit then some (s.dropWhile Char.isDigit) else none

def unsigned : List Char → List Char
  | '-' :: s => s
  | s => s

def intPart : List Char → Option (List Char)
  | '0' :: s => some s
  | s => digits s

def fraction : List Char → Option (List Char)
  | '.' :: s => digits s
  | s => some s

def exponentDigits : List Char → Option (List Char)
  | '+' :: s => digits s
  | '-' :: s => digits s
  | s => digits s

def exponent : List Char → Option (List Char)
  | 'e' :: s => exponentDigits s
  | 'E' :: s => exponentDigits s
  | s => some s

/-- A character that stands in a literal or a number. -/
def isAtomChar (c : Char) : Bool := c.isAlphanum || c == '+' || c == '-' || c == '.'

def isInt (s : List Char) : Bool := intPart (unsigned s) == some []

/-- A fraction or an exponent, or one of the three that are no numbers. -/
def isFloat (s : List Char) : Bool :=
  s.all isAtomChar && !isInt s &&
    (((intPart (unsigned s)).bind fun s => (fraction s).bind exponent) == some [] ||
      ["NaN".toList, "Infinity".toList, "-Infinity".toList].contains s)

end Number

structure PyFloat where
  text : String
  isFloat : Number.isFloat text.toList = true
  deriving DecidableEq, Repr

inductive Json where
  | null
  | bool (b : Bool)
  | int (n : Int)
  | float (x : PyFloat)
  | str (s : String)
  | arr (items : List Json)
  | obj (fields : List (String × Json))

namespace Json

/-! ## Objects -/

def lookup (key : String) : List (String × Json) → Option Json
  | [] => none
  | (k, v) :: fields => if k = key then some v else lookup key fields

def setField (key : String) (value : Json) : List (String × Json) → List (String × Json)
  | [] => [(key, value)]
  | (k, v) :: fields => if k = key then (k, value) :: fields else (k, v) :: setField key value fields

/-- `d.get(key)` on a dict; other values have no fields. -/
def get? (key : String) : Json → Option Json
  | obj fields => lookup key fields
  | _ => none

/-- `d[key] = value` on a dict. -/
def set (j : Json) (key : String) (value : Json) : Json :=
  match j with
  | obj fields => obj (setField key value fields)
  | j => j

theorem lookup_cons (key k : String) (v : Json) (fields : List (String × Json)) :
    lookup key ((k, v) :: fields) = if k = key then some v else lookup key fields := rfl

theorem setField_cons (key k : String) (value v : Json) (fields : List (String × Json)) :
    setField key value ((k, v) :: fields) =
      if k = key then (k, value) :: fields else (k, v) :: setField key value fields := rfl

theorem lookup_setField_other {key k : String} (value : Json) (h : k ≠ key) (fields : List (String × Json)) :
    lookup k (setField key value fields) = lookup k fields := by
  induction fields with
  | nil => exact if_neg (Ne.symm h)
  | cons f fields ih =>
    obtain ⟨k', v⟩ := f
    rw [setField_cons]
    split
    · rename_i hk
      subst hk
      simp [lookup_cons, Ne.symm h]
    · simp only [lookup_cons, ih]

theorem lookup_setField_self (key : String) (value : Json) (fields : List (String × Json)) :
    lookup key (setField key value fields) = some value := by
  induction fields with
  | nil => exact if_pos rfl
  | cons f fields ih =>
    obtain ⟨k', v⟩ := f
    rw [setField_cons]
    split
    · rename_i hk
      subst hk
      simp [lookup_cons]
    · rename_i hk
      rw [lookup_cons, if_neg hk, ih]

theorem setField_setField (key : String) (a b : Json) (fields : List (String × Json)) :
    setField key b (setField key a fields) = setField key b fields := by
  induction fields with
  | nil => exact if_pos rfl
  | cons f fields ih =>
    obtain ⟨k, v⟩ := f
    by_cases hk : k = key
    · simp [setField_cons, hk]
    · simp [setField_cons, hk, ih]

/-- A field set to what it is. -/
theorem setField_lookup {key : String} {value : Json} {fields : List (String × Json)}
    (h : lookup key fields = some value) : setField key value fields = fields := by
  induction fields with
  | nil => cases h
  | cons f fields ih =>
    obtain ⟨k, v⟩ := f
    rw [lookup_cons] at h
    rw [setField_cons]
    split
    · rename_i hk
      rw [if_pos hk] at h
      rw [Option.some.inj h]
    · rename_i hk
      rw [if_neg hk] at h
      rw [ih h]

theorem set_get? {j : Json} {key : String} {value : Json} (h : j.get? key = some value) : j.set key value = j := by
  cases j with
  | obj fields => exact congrArg obj (setField_lookup h)
  | _ => rfl

/-- The last value set counts. -/
theorem set_set (j : Json) (key : String) (a b : Json) : (j.set key a).set key b = j.set key b := by
  cases j with
  | obj fields => exact congrArg obj (setField_setField key a b fields)
  | _ => rfl

theorem get?_set_other {key k : String} (value : Json) (h : k ≠ key) (j : Json) :
    (j.set key value).get? k = j.get? k := by
  cases j with
  | obj fields => exact lookup_setField_other value h fields
  | _ => rfl

/-- A field that holds the text `s`. -/
def fieldIs (key s : String) (j : Json) : Bool :=
  match j.get? key with
  | some (str t) => t == s
  | _ => false

/-- `if v:` for a value. -/
def truthy : Json → Bool
  | null => false
  | bool b => b
  | int n => n != 0
  | float x => !(["0.0", "-0.0"].contains x.text)
  | str s => !s.isEmpty
  | arr items => !items.isEmpty
  | obj fields => !fields.isEmpty

/-- The values that may be keys of a dict, as such. -/
inductive Key where
  | null
  | bool (b : Bool)
  | int (n : Int)
  | float (x : PyFloat)
  | str (s : String)
  deriving DecidableEq, Repr

/-- The value as a key, none if it cannot be hashed. -/
def key? : Json → Option Key
  | null => some .null
  | bool b => some (.bool b)
  | int n => some (.int n)
  | float x => some (.float x)
  | str s => some (.str s)
  | arr _ => none
  | obj _ => none

/-! ## Sorted keys -/

/-- A field in its place among fields in order. -/
def insertField (k : String) (j : Json) : List (String × Json) → List (String × Json)
  | [] => [(k, j)]
  | (k', j') :: fs => if k ≤ k' then (k, j) :: (k', j') :: fs else (k', j') :: insertField k j fs

mutual

/-- The fields of every object in the order of their keys. -/
def sortKeys : Json → Json
  | arr items => arr (sortItems items)
  | obj fields => obj (sortFields fields)
  | j => j

def sortItems : List Json → List Json
  | [] => []
  | j :: js => sortKeys j :: sortItems js

def sortFields : List (String × Json) → List (String × Json)
  | [] => []
  | (k, j) :: fs => insertField k (sortKeys j) (sortFields fs)

end

/-! ## Serialisation -/

def hex4 (n : Nat) : List Char := [n / 4096 % 16, n / 256 % 16, n / 16 % 16, n % 16].map Nat.digitChar

/-- The two-character escape of a character that has one. -/
def shortEscape (c : Char) : Option (List Char) :=
  if c = '"' then some ['\\', '"']
  else if c = '\\' then some ['\\', '\\']
  else if c = '\n' then some ['\\', 'n']
  else if c = '\r' then some ['\\', 'r']
  else if c = '\t' then some ['\\', 't']
  else if c.toNat = 0x0c then some ['\\', 'f']
  else if c.toNat = 0x08 then some ['\\', 'b']
  else none

def escape (c : Char) : List Char :=
  match shortEscape c with
  | some s => s
  | none =>
    if 0x20 ≤ c.toNat ∧ c.toNat ≤ 0x7e then [c]
    else if c.toNat < 0x10000 then ['\\', 'u'] ++ hex4 c.toNat
    else
      let n := c.toNat - 0x10000
      ['\\', 'u'] ++ hex4 (0xd800 + n / 1024 % 1024) ++ ['\\', 'u'] ++ hex4 (0xdc00 + n % 1024)

/-- The escapes of pydantic's writer: what must be escaped, and no more. -/
def escapeControl (c : Char) : List Char :=
  match shortEscape c with
  | some s => s
  | none => if c.toNat < 0x20 then ['\\', 'u'] ++ hex4 c.toNat else [c]

/-- How a writer escapes characters, and what it puts between items, and after a key. -/
structure Layout where
  escape : Char → List Char
  itemSep : List Char
  keySep : List Char

/-- `json.dumps`. -/
def spaced : Layout := ⟨escape, ", ".toList, ": ".toList⟩

/-- `model_dump_json`. -/
def compact : Layout := ⟨escapeControl, ",".toList, ":".toList⟩

def quote (L : Layout) (s : String) : List Char := '"' :: s.toList.flatMap L.escape ++ ['"']

mutual

def write (L : Layout) : Json → List Char
  | null => "null".toList
  | bool true => "true".toList
  | bool false => "false".toList
  | int n => (toString n).toList
  | float x => x.text.toList
  | str s => quote L s
  | arr items => '[' :: writeItems L items ++ [']']
  | obj fields => '{' :: writeFields L fields ++ ['}']

def writeItems (L : Layout) : List Json → List Char
  | [] => []
  | [j] => write L j
  | j :: js => write L j ++ L.itemSep ++ writeItems L js

def writeField (L : Layout) : String × Json → List Char
  | (k, j) => quote L k ++ L.keySep ++ write L j

def writeFields (L : Layout) : List (String × Json) → List Char
  | [] => []
  | [f] => writeField L f
  | f :: fs => writeField L f ++ L.itemSep ++ writeFields L fs

end

def dumps : Json → List Char := write spaced

example : dumps (.arr [.int (-3), .str "é\n", .null]) = "[-3, \"\\u00e9\\n\", null]".toList := by
  decide

end Json

end Errand.Lib

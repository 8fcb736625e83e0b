import Errand.Lib.PyStr
import Mathlib.Data.List.Induction
import Mathlib.Tactic.IntervalCases

/-
  Errand.Server.LogStamps — the stamp in front of a pod's log line (`_split_log_timestamp`,
  errand/container_runtime.py), and how `datetime` reads it.

  An instant is the microseconds since the day before 1 January of the year 1, in UTC. A `Stamp`
  is one the kubelet writes: RFC3339 with up to nine digits behind the point, in any zone, of an
  instant `datetime` can hold.

  Proved:
  - `micros_eq`: the instant `datetime` holds is the stamp's, cut to microseconds.
  - `splitLogTimestamp_line`: a stamped line is taken apart at the blank behind its stamp.
  - `splitLogTimestamp_stamp`: a stamp with nothing behind it is taken for a text.
-/

namespace Errand.Server.LogStamps

open Errand.Lib.PyStr

abbrev Text := List Char

/-! ## datetime -/

def isLeap (year : Nat) : Bool := year % 4 == 0 && (year % 100 != 0 || year % 400 == 0)

def daysInMonth (year month : Nat) : Nat :=
  if month = 2 then (if isLeap year then 29 else 28) else if month = 4 ∨ month = 6 ∨ month = 9 ∨ month = 11 then 30 else 31

def daysBeforeMonth (year month : Nat) : Nat := ((List.range (month - 1)).map fun m => daysInMonth year (m + 1)).sum

def toordinal (year month day : Nat) : Nat :=
  (year - 1) * 365 + (year - 1) / 4 - (year - 1) / 100 + (year - 1) / 400 + daysBeforeMonth year month + day

/-- The seconds of a time of day, in a zone so many minutes ahead of UTC. -/
def utcSeconds (year month day hour minute second : Nat) (offset : Int) : Int :=
  ((toordinal year month day * 24 + hour) * 60 + minute - offset) * 60 + second

def isDate (year month day hour minute second : Nat) : Bool :=
  1 ≤ year && 1 ≤ month && month ≤ 12 && 1 ≤ day && day ≤ daysInMonth year month && hour < 24 && minute < 60 && second < 60

/-- The number a text of ASCII digits is. -/
def number? (s : Text) : Option Nat := if s.all Char.isDigit then some (digitsValue s) else none

/-- `datetime.fromisoformat` of `base`, a point, `frac` and `tz`, for texts of the pattern's lengths;
    none is its ValueError. -/
def fromisoformat (base frac tz : Text) : Option Int := do
  let year ← number? (base.take 4)
  let month ← number? ((base.drop 5).take 2)
  let day ← number? ((base.drop 8).take 2)
  let hour ← number? ((base.drop 11).take 2)
  let minute ← number? ((base.drop 14).take 2)
  let second ← number? ((base.drop 17).take 2)
  let micros ← number? frac
  let hours ← number? ((tz.drop 1).take 2)
  let minutes ← number? (tz.drop (tz.length - 2))
  let offset : Int := hours * 60 + minutes
  if isDate year month day hour minute second && offset < 24 * 60 then
    some (utcSeconds year month day hour minute second (if tz.head? = some '-' then -offset else offset) * 1000000 + micros)
  else none

/-- `datetime.min` and `datetime.max`, in UTC. -/
def inRange (instant : Int) : Bool := 86400 * 1000000 ≤ instant && instant < (3652059 + 1) * 86400 * 1000000

/-! ## _split_log_timestamp -/

def fits (pattern : List (Char → Bool)) (s : Text) : Bool :=
  pattern.length == s.length && (pattern.zipWith (fun p c => p c) s).all id

def lit (c : Char) : Char → Bool := fun d => d == c

def basePattern : List (Char → Bool) :=
  [isDigit, isDigit, isDigit, isDigit, lit '-', isDigit, isDigit, lit '-', isDigit, isDigit, lit 'T', isDigit, isDigit,
   lit ':', isDigit, isDigit, lit ':', isDigit, isDigit]

def isSign (c : Char) : Bool := c == '+' || c == '-'

def isZone (tz : Text) : Bool :=
  tz == ['Z'] || tz == ['z'] || fits [isSign, isDigit, isDigit, lit ':', isDigit, isDigit] tz ||
    fits [isSign, isDigit, isDigit, isDigit, isDigit] tz

/-- `_LOG_TIMESTAMP_RE.match`, on a text without line breaks: `base`, `frac` or "", and `tz`. No
    zone begins with a point or a digit, so the pattern matches one way only. -/
def logTimestampRe (head : Text) : Option (Text × Text × Text) :=
  let base := head.take 19
  if fits basePattern base then
    match head.drop 19 with
    | '.' :: rest =>
      let (frac, tz) := splitRun isDigit rest
      if frac ≠ [] ∧ isZone tz then some (base, frac, tz) else none
    | tz => if isZone tz then some (base, [], tz) else none
  else none

/-- `s.ljust(n, pad)[:n]`. -/
def ljust {α : Type} (n : Nat) (pad : α) (s : List α) : List α := (s ++ List.replicate (n - s.length) pad).take n

/-- `_split_log_timestamp`; none is the OverflowError of `astimezone`. -/
def splitLogTimestamp (line : Text) : Option (Option Int × Text) :=
  match splitRun (· != ' ') line with
  | (_, []) => some (none, line)
  | (head, _ :: rest) =>
    match logTimestampRe head with
    | none => some (none, line)
    | some (base, frac, tz) =>
      let tz := if tz = ['Z'] ∨ tz = ['z'] then "+00:00".toList else tz
      match fromisoformat base (ljust 6 '0' frac) tz with
      | none => some (none, line)
      | some ts => if inRange ts then some (some ts, rest) else none

example : splitLogTimestamp "0001-01-02T01:00:01.5+01:00 x y".toList = some (some (2 * 86400000000 + 1500000), "x y".toList) := by
  decide

/-! ## What the kubelet writes -/

def digits (n : Nat) : Text := [Nat.digitChar (n / 10), Nat.digitChar (n % 10)]

inductive Zone where
  | utc
  | offset (behind : Bool) (hours minutes : Nat)

def Zone.text : Zone → Text
  | .utc => ['Z']
  | .offset behind hours minutes => (if behind then '-' else '+') :: digits hours ++ ':' :: digits minutes

/-- How many minutes the zone is ahead of UTC. -/
def Zone.ahead : Zone → Int
  | .utc => 0
  | .offset behind hours minutes => if behind then -(hours * 60 + minutes : Int) else hours * 60 + minutes

def Zone.Valid : Zone → Prop
  | .utc => True
  | .offset _ hours minutes => hours < 24 ∧ minutes < 60

def value (ds : List Nat) : Nat := ds.foldl (fun n d => 10 * n + d) 0

structure Stamp where
  year : Nat
  month : Nat
  day : Nat
  hour : Nat
  minute : Nat
  second : Nat
  fraction : List Nat
  zone : Zone
  date : isDate year month day hour minute second = true
  year_le : year ≤ 9999
  fraction_digits : ∀ d ∈ fraction, d < 10
  fraction_length : fraction.length ≤ 9
  zone_valid : zone.Valid
  in_range : inRange (utcSeconds year month day hour minute second zone.ahead * 1000000) = true

namespace Stamp

def base (s : Stamp) : Text :=
  digits (s.year / 100) ++ digits (s.year % 100) ++ '-' :: digits s.month ++ '-' :: digits s.day ++
    'T' :: digits s.hour ++ ':' :: digits s.minute ++ ':' :: digits s.second

def fractionText (s : Stamp) : Text := if s.fraction = [] then [] else '.' :: s.fraction.map Nat.digitChar

def text (s : Stamp) : Text := s.base ++ (s.fractionText ++ s.zone.text)

def seconds (s : Stamp) : Int := utcSeconds s.year s.month s.day s.hour s.minute s.second s.zone.ahead

/-- The instant in nanoseconds. -/
def nanos (s : Stamp) : Int := s.seconds * 1000000000 + value (ljust 9 0 s.fraction)

/-- The instant as `datetime` holds it. -/
def micros (s : Stamp) : Int := s.seconds * 1000000 + value (ljust 6 0 s.fraction)

end Stamp

theorem value_append (as bs : List Nat) : value (as ++ bs) = value as * 10 ^ bs.length + value bs := by
  induction bs using List.reverseRecOn with
  | nil => simp [value]
  | append_singleton bs b ih =>
    have hsnoc : ∀ cs : List Nat, value (cs ++ [b]) = 10 * value cs + b := fun cs => by
      rw [value, List.foldl_append]
      rfl
    rw [← List.append_assoc, hsnoc, hsnoc, ih, List.length_append, List.length_singleton, Nat.pow_succ, Nat.mul_add,
      Nat.add_assoc]
    congr 1
    rw [Nat.mul_comm 10, Nat.mul_assoc]

theorem value_lt (ds : List Nat) (h : ∀ d ∈ ds, d < 10) : value ds < 10 ^ ds.length := by
  induction ds using List.reverseRecOn with
  | nil => exact Nat.one_pos
  | append_singleton ds d ih =>
    have hd := h d (List.mem_append_right _ (List.mem_singleton_self d))
    have hds := ih fun e he => h e (List.mem_append_left _ he)
    rw [value_append, List.length_append, List.length_singleton, Nat.pow_succ]
    have : value [d] = d := Nat.zero_add d
    omega

theorem ljust_length {α : Type} (n : Nat) (pad : α) (s : List α) : (ljust n pad s).length = n := by
  rw [ljust, List.length_take, List.length_append, List.length_replicate]
  omega

theorem mem_ljust {α : Type} {n : Nat} {pad a : α} {s : List α} (h : a ∈ ljust n pad s) : a ∈ s ∨ a = pad := by
  rcases List.mem_append.mp (List.mem_of_mem_take h) with h | h
  · exact .inl h
  · exact .inr (List.eq_of_mem_replicate h)

theorem ljust_take {α : Type} {m n : Nat} (hmn : m ≤ n) (pad : α) (s : List α) : (ljust n pad s).take m = ljust m pad s := by
  rw [ljust, ljust, List.take_take, Nat.min_eq_left hmn, List.take_append, List.take_append, List.take_replicate,
    List.take_replicate]
  congr 2
  omega

theorem ljust_map {α β : Type} (f : α → β) (n : Nat) (pad : α) (s : List α) :
    (ljust n pad s).map f = ljust n (f pad) (s.map f) := by
  rw [ljust, ljust, List.map_take, List.map_append, List.map_replicate, List.length_map]

/-- The instant `datetime` holds is the stamp's, cut to microseconds. -/
theorem Stamp.micros_eq (s : Stamp) : s.micros = s.nanos / 1000 := by
  have hlow : value (ljust 9 0 s.fraction) = value (ljust 6 0 s.fraction) * 1000 + value ((ljust 9 0 s.fraction).drop 6) := by
    have hlen : ((ljust 9 0 s.fraction).drop 6).length = 3 := by rw [List.length_drop, ljust_length]
    have happ := value_append ((ljust 9 0 s.fraction).take 6) ((ljust 9 0 s.fraction).drop 6)
    rwa [List.take_append_drop, ljust_take (by omega), hlen] at happ
  have hlt : value ((ljust 9 0 s.fraction).drop 6) < 1000 := by
    have hd := value_lt ((ljust 9 0 s.fraction).drop 6) (fun d hd => by
      rcases mem_ljust (List.mem_of_mem_drop hd) with hd | rfl
      · exact s.fraction_digits d hd
      · decide)
    rwa [List.length_drop, ljust_length] at hd
  rw [Stamp.micros, Stamp.nanos, hlow]
  omega

/-! ## A stamp read back -/

def alphabet : Text := "0123456789-:T.Z+".toList

theorem digitChar_mem {n : Nat} (h : n < 10) : Nat.digitChar n ∈ alphabet := by
  interval_cases n
  all_goals decide

theorem digitChar_digit {n : Nat} (h : n < 10) :
    isDigit (Nat.digitChar n) = true ∧ (Nat.digitChar n).isDigit = true ∧ digit? (Nat.digitChar n) = some n := by
  interval_cases n
  all_goals decide

theorem digits_mem {n : Nat} (h : n < 100) : ∀ c ∈ digits n, c ∈ alphabet := by
  intro c hc
  simp only [digits, List.mem_cons, List.not_mem_nil, or_false] at hc
  rcases hc with rfl | rfl
  · exact digitChar_mem (by omega)
  · exact digitChar_mem (by omega)

theorem digitsValue_map {ds : List Nat} (h : ∀ d ∈ ds, d < 10) : digitsValue (ds.map Nat.digitChar) = value ds := by
  induction ds using List.reverseRecOn with
  | nil => rfl
  | append_singleton ds d ih =>
    have hd := (digitChar_digit (h d (List.mem_append_right _ (List.mem_singleton_self d)))).2.2
    rw [digitsValue, value] at ih ⊢
    rw [List.map_append, List.foldl_append, List.foldl_append, ih fun e he => h e (List.mem_append_left _ he)]
    simp [hd]

theorem number_map (ds : List Nat) (h : ∀ d ∈ ds, d < 10) : number? (ds.map Nat.digitChar) = some (value ds) := by
  rw [number?, if_pos ?_, digitsValue_map h]
  rw [List.all_map, List.all_eq_true]
  intro d hd
  exact (digitChar_digit (h d hd)).2.1

theorem number_digits {n : Nat} (h : n < 100) : number? (digits n) = some n := by
  have hmap := number_map [n / 10, n % 10] (by simp; omega)
  have hvalue : value [n / 10, n % 10] = n := by
    simp [value]
    omega
  rwa [hvalue] at hmap

theorem number_year {n : Nat} (h : n ≤ 9999) : number? (digits (n / 100) ++ digits (n % 100)) = some n := by
  have hmap := number_map [n / 100 / 10, n / 100 % 10, n % 100 / 10, n % 100 % 10] (by simp; omega)
  have hvalue : value [n / 100 / 10, n / 100 % 10, n % 100 / 10, n % 100 % 10] = n := by
    simp [value]
    omega
  rwa [hvalue] at hmap

namespace Stamp

variable (s : Stamp)

theorem bounds : s.month < 100 ∧ s.day < 100 ∧ s.hour < 100 ∧ s.minute < 100 ∧ s.second < 100 := by
  have h := s.date
  simp only [isDate, Bool.and_eq_true, decide_eq_true_eq] at h
  have hday : daysInMonth s.year s.month ≤ 31 := by
    unfold daysInMonth
    repeat' split
    all_goals decide
  omega

theorem zone_mem : ∀ c ∈ s.zone.text, c ∈ alphabet := by
  have hvalid := s.zone_valid
  generalize s.zone = zone at hvalid
  cases zone with
  | utc =>
    intro c hc
    rw [List.mem_singleton.mp hc]
    decide
  | offset behind hours minutes =>
    intro c hc
    rcases List.mem_cons.mp hc with rfl | hc
    · cases behind <;> decide
    · rcases List.mem_append.mp hc with hc | hc
      · exact digits_mem (Nat.lt_trans hvalid.1 (by decide)) c hc
      · rcases List.mem_cons.mp hc with rfl | hc
        · decide
        · exact digits_mem (Nat.lt_trans hvalid.2 (by decide)) c hc

theorem base_mem : ∀ c ∈ s.base, c ∈ alphabet := by
  obtain ⟨hmonth, hday, hhour, hminute, hsecond⟩ := s.bounds
  have hyear := s.year_le
  have hsep : '-' ∈ alphabet ∧ 'T' ∈ alphabet ∧ ':' ∈ alphabet := by decide
  intro c hc
  simp only [base, List.mem_append, List.mem_cons] at hc
  rcases hc with (((((hc | hc) | rfl | hc) | rfl | hc) | rfl | hc) | rfl | hc) | rfl | hc
  all_goals first
    | exact hsep.1
    | exact hsep.2.1
    | exact hsep.2.2
    | exact digits_mem (by omega) c hc

theorem text_mem : ∀ c ∈ s.text, c ∈ alphabet := by
  intro c hc
  rcases List.mem_append.mp hc with hc | hc
  · exact s.base_mem c hc
  · rcases List.mem_append.mp hc with hc | hc
    · rw [fractionText] at hc
      split at hc
      · cases hc
      · rcases List.mem_cons.mp hc with rfl | hc
        · decide
        · obtain ⟨d, hd, rfl⟩ := List.mem_map.mp hc
          exact digitChar_mem (s.fraction_digits d hd)
    · exact s.zone_mem c hc

theorem text_isSpace : ∀ c ∈ s.text, isSpace c = false := by
  intro c hc
  have halphabet : (alphabet.all fun c => !isSpace c) = true := by decide
  simpa using List.all_eq_true.mp halphabet c (s.text_mem c hc)

theorem text_ne_nil : s.text ≠ [] := by
  intro h
  have hlen := congrArg List.length h
  rw [text, List.length_append] at hlen
  have hbase : s.base.length = 19 := rfl
  rw [hbase, List.length_nil] at hlen
  omega

theorem text_ne {c : Char} (hc : c ∉ alphabet) : ∀ d ∈ s.text, (d != c) = true := by
  intro d hd
  rw [bne_iff_ne]
  intro hdc
  exact hc (hdc ▸ s.text_mem d hd)

theorem base_fits : fits basePattern s.base = true := by
  obtain ⟨hmonth, hday, hhour, hminute, hsecond⟩ := s.bounds
  have hyear := s.year_le
  have hdigit : ∀ n, n < 10 → isDigit (Nat.digitChar n) = true := fun n hn => (digitChar_digit hn).1
  simp only [fits, basePattern, base, digits, List.cons_append, List.nil_append, List.zipWith_cons_cons, List.zipWith_nil_right,
    List.all_cons, List.all_nil, id, Bool.and_true]
  simp (disch := omega) only [hdigit]
  rfl

theorem zone_isZone : isZone s.zone.text = true := by
  have hvalid := s.zone_valid
  generalize s.zone = zone at hvalid
  cases zone with
  | utc => rfl
  | offset behind hours minutes =>
    obtain ⟨hhours, hminutes⟩ := hvalid
    have hdigit : ∀ n, n < 10 → isDigit (Nat.digitChar n) = true := fun n hn => (digitChar_digit hn).1
    have hsign : isSign (if behind then '-' else '+') = true := by cases behind <;> rfl
    have hfits : fits [isSign, isDigit, isDigit, lit ':', isDigit, isDigit] (Zone.offset behind hours minutes).text = true := by
      simp only [fits, Zone.text, digits, List.cons_append, List.nil_append, List.zipWith_cons_cons, List.zipWith_nil_right,
        List.all_cons, List.all_nil, id, Bool.and_true, hsign]
      simp (disch := omega) only [hdigit]
      rfl
    rw [isZone, hfits, Bool.or_true, Bool.true_or]

/-- A zone begins with neither a digit nor a point. -/
theorem zone_head : ∃ c rest, s.zone.text = c :: rest ∧ isDigit c = false ∧ c ≠ '.' := by
  cases s.zone with
  | utc => exact ⟨'Z', [], rfl, by decide, by decide⟩
  | offset behind hours minutes =>
    refine ⟨_, _, rfl, ?_⟩
    cases behind <;> decide

theorem logTimestampRe_text :
    logTimestampRe s.text = some (s.base, s.fraction.map Nat.digitChar, s.zone.text) := by
  have hlen : s.base.length = 19 := rfl
  obtain ⟨c, rest, hzone, hdigit, hpoint⟩ := s.zone_head
  have htz := s.zone_isZone
  simp only [logTimestampRe]
  rw [text, List.take_left' hlen, List.drop_left' hlen, if_pos s.base_fits, fractionText]
  by_cases hnil : s.fraction = []
  · rw [if_pos hnil, List.nil_append, hnil, List.map_nil]
    rw [hzone] at htz ⊢
    split
    · rename_i heq
      exact absurd (List.cons.inj heq).1 hpoint
    · rw [if_pos htz]
  · have hrun : splitRun isDigit (s.fraction.map Nat.digitChar ++ s.zone.text) = (s.fraction.map Nat.digitChar, s.zone.text) := by
      refine splitRun_append ?_ ?_
      · intro d hd
        obtain ⟨n, hn, rfl⟩ := List.mem_map.mp hd
        exact (digitChar_digit (s.fraction_digits n hn)).1
      · intro d hd
        rw [hzone] at hd
        cases hd
        exact hdigit
    rw [if_neg hnil, List.cons_append]
    simp only [hrun]
    rw [if_pos ⟨by simp [hnil], htz⟩]

/-- The zone as `fromisoformat` gets it. -/
theorem zone_offset :
    ∃ tz hours minutes : _, (if s.zone.text = ['Z'] ∨ s.zone.text = ['z'] then "+00:00".toList else s.zone.text) = tz ∧
      number? ((tz.drop 1).take 2) = some hours ∧ number? (tz.drop (tz.length - 2)) = some minutes ∧
      hours * 60 + minutes < 24 * 60 ∧
      s.zone.ahead = if tz.head? = some '-' then -(hours * 60 + minutes : Int) else hours * 60 + minutes := by
  have hvalid := s.zone_valid
  generalize s.zone = zone at hvalid
  cases zone with
  | utc => exact ⟨_, 0, 0, rfl, rfl, rfl, by decide, rfl⟩
  | offset behind hours minutes =>
    obtain ⟨hhours, hminutes⟩ := hvalid
    refine ⟨_, hours, minutes, rfl, ?_⟩
    rw [if_neg (by simp [Zone.text, digits])]
    refine ⟨number_digits (by omega), number_digits (by omega), by omega, ?_⟩
    cases behind <;> rfl

end Stamp

/-- A stamped line is taken apart at the blank behind its stamp. -/
theorem splitLogTimestamp_line (s : Stamp) (rest : Text) :
    splitLogTimestamp (s.text ++ ' ' :: rest) = some (some s.micros, rest) := by
  obtain ⟨hmonth, hday, hhour, hminute, hsecond⟩ := s.bounds
  obtain ⟨tz, hours, minutes, htz, hhours, hminutes, hlt, hahead⟩ := s.zone_offset
  have hfrac : number? (ljust 6 '0' (s.fraction.map Nat.digitChar)) = some (value (ljust 6 0 s.fraction)) := by
    have hmap : ljust 6 '0' (s.fraction.map Nat.digitChar) = (ljust 6 0 s.fraction).map Nat.digitChar :=
      (ljust_map Nat.digitChar 6 0 s.fraction).symm
    rw [hmap]
    refine number_map _ fun d hd => ?_
    rcases mem_ljust hd with hd | rfl
    · exact s.fraction_digits d hd
    · decide
  have hiso : fromisoformat s.base (ljust 6 '0' (s.fraction.map Nat.digitChar)) tz = some s.micros := by
    have hy : number? (s.base.take 4) = some s.year := number_year s.year_le
    have hmo : number? ((s.base.drop 5).take 2) = some s.month := number_digits hmonth
    have hd : number? ((s.base.drop 8).take 2) = some s.day := number_digits hday
    have hh : number? ((s.base.drop 11).take 2) = some s.hour := number_digits hhour
    have hmi : number? ((s.base.drop 14).take 2) = some s.minute := number_digits hminute
    have hs : number? ((s.base.drop 17).take 2) = some s.second := number_digits hsecond
    simp only [fromisoformat, hy, hmo, hd, hh, hmi, hs, hfrac, hhours, hminutes, Option.bind_eq_bind, Option.bind_some, s.date,
      Bool.true_and]
    rw [if_pos (by simp; omega), ← hahead]
    rfl
  have hrange : inRange s.micros = true := by
    have hin := s.in_range
    have hvalue : value (ljust 6 0 s.fraction) < 1000000 := by
      have hv := value_lt (ljust 6 0 s.fraction) (fun d hd => by
        rcases mem_ljust hd with hd | rfl
        · exact s.fraction_digits d hd
        · decide)
      rwa [ljust_length] at hv
    rw [inRange, Bool.and_eq_true, decide_eq_true_eq, decide_eq_true_eq] at hin ⊢
    rw [Stamp.micros, Stamp.seconds]
    omega
  simp only [splitLogTimestamp]
  rw [splitRun_append (s.text_ne (by decide)) (by rintro c ⟨⟩; rfl)]
  dsimp only
  rw [s.logTimestampRe_text]
  dsimp only
  rw [htz, hiso]
  dsimp only
  rw [if_pos hrange]

/-- A stamp with nothing behind it is taken for a text. -/
theorem splitLogTimestamp_stamp (s : Stamp) : splitLogTimestamp s.text = some (none, s.text) := by
  have hrun := splitRun_append (b := []) (s.text_ne (c := ' ') (by decide)) (by nofun)
  rw [List.append_nil] at hrun
  simp only [splitLogTimestamp]
  rw [hrun]

end Errand.Server.LogStamps

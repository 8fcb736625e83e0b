import Errand.Gateway.Datetime

/-
  Errand.Gateway.Moments — the times of fingerprints and of `rclone lsjson`.

  A `Moment` is a time of day in a zone, with up to nine digits behind the point, in a year of
  four digits; its instant is in nanoseconds. It is rendered as RFC3339, or as Go's
  `Time.String()`: with the zone's offset, the zone's name, which is letters or a sign and
  digits, and perhaps the reading of the monotonic clock.

  Proved:
  - `held_iff`: what `datetime` holds of a moment is its instant, cut to microseconds, exactly
    if the year and the instant are in its range.
  - `datetime_held`: the same of a moment's fields.
  - `Moment.mem_date`, `Moment.mem_clock`, `mem_numericZone`, `ZoneName.plain`: the characters
    of the parts of a rendering.
-/

namespace Errand.Gateway.Moments

open Errand.Lib Errand.Lib.PyStr Errand.Lib.Alternatives Errand.Gateway.Datetime
open Errand.Server.LogStamps (Zone isDate daysInMonth daysBeforeMonth toordinal utcSeconds inRange number? ljust value digits)

/-! ## Moments -/

structure Moment where
  year : Nat
  month : Nat
  day : Nat
  hour : Nat
  minute : Nat
  second : Nat
  fraction : List Nat
  zone : Zone
  year_le : year ≤ 9999
  month_valid : 1 ≤ month ∧ month ≤ 12
  day_valid : 1 ≤ day ∧ day ≤ daysInMonth year month
  clock_valid : hour < 24 ∧ minute < 60 ∧ second < 60
  fraction_digits : ∀ d ∈ fraction, d < 10
  fraction_length : fraction.length ≤ 9
  zone_valid : zone.Valid

namespace Moment

/-- The days up to the day, from 1 January of the year 1 on. -/
def ordinal (m : Moment) : Int :=
  (m.year - 1 : Int) * 365 + (m.year - 1 : Int) / 4 - (m.year - 1 : Int) / 100 + (m.year - 1 : Int) / 400 +
    daysBeforeMonth m.year m.month + m.day

/-- The instant in seconds, in UTC. -/
def seconds (m : Moment) : Int := ((m.ordinal * 24 + m.hour) * 60 + m.minute - m.zone.ahead) * 60 + m.second

def nanos (m : Moment) : Int := m.seconds * 1000000000 + value (ljust 9 0 m.fraction)

/-- `datetime` has the date, and the instant in UTC. -/
def Holdable (m : Moment) : Prop := 1 ≤ m.year ∧ inRange (m.seconds * 1000000) = true

def date (m : Moment) : Text :=
  digits (m.year / 100) ++ digits (m.year % 100) ++ '-' :: digits m.month ++ '-' :: digits m.day

def clock (m : Moment) : Text := digits m.hour ++ ':' :: digits m.minute ++ ':' :: digits m.second

def fractionText (m : Moment) : Text := if m.fraction = [] then [] else '.' :: m.fraction.map Nat.digitChar

end Moment

/-! ## Their renderings -/

/-- A sign of an offset. -/
def sign (behind : Bool) : Char := if behind then '-' else '+'

/-- The offset in the layout "-0700". -/
def numericZone : Zone → Text
  | .utc => sign false :: digits 0 ++ digits 0
  | .offset behind hours minutes => sign behind :: digits hours ++ digits minutes

def isLetter (c : Char) : Bool := range 'A' 'Z' c || range 'a' 'z' c

/-- A zone's abbreviation: letters, or a number with its sign where the zone has none. -/
structure ZoneName where
  text : Text
  printed : (text ≠ [] ∧ ∀ c ∈ text, isLetter c = true) ∨
    ∃ (behind : Bool) (ds : List Nat), text = sign behind :: ds.map Nat.digitChar ∧ ∀ d ∈ ds, d < 10

/-- " m=±value", in seconds. -/
structure Monotonic where
  behind : Bool
  whole : List Nat
  fraction : List Nat
  whole_digits : ∀ d ∈ whole, d < 10
  fraction_digits : ∀ d ∈ fraction, d < 10

def Monotonic.reading (m : Monotonic) : Text :=
  sign m.behind :: m.whole.map Nat.digitChar ++ '.' :: m.fraction.map Nat.digitChar

def Monotonic.text : Option Monotonic → Text
  | none => []
  | some m => " m=".toList ++ m.reading

inductive Rendering where
  | rfc3339 (m : Moment)
  | goString (m : Moment) (name : ZoneName) (monotonic : Option Monotonic)

namespace Rendering

def moment : Rendering → Moment
  | .rfc3339 m => m
  | .goString m _ _ => m

def text : Rendering → Text
  | .rfc3339 m => m.date ++ 'T' :: m.clock ++ m.fractionText ++ m.zone.text
  | .goString m name monotonic =>
    m.date ++ ' ' :: m.clock ++ m.fractionText ++ ' ' :: numericZone m.zone ++ ' ' :: name.text ++
      Monotonic.text monotonic

/-- The instant in nanoseconds. -/
def nanos (r : Rendering) : Int := r.moment.nanos

/-- The times that are read. -/
def Read : Rendering → Prop
  | .rfc3339 m => m.Holdable
  | .goString m name monotonic =>
    m.Holdable ∧ m.fraction.length ≤ 6 ∧ name.text = "UTC".toList ∧ monotonic = none

end Rendering

/-! ## What `datetime` makes of a moment -/

section Held

open Errand.Server.LogStamps hiding Text

/-- The instant as `datetime` holds it. -/
def Moment.micros (m : Moment) : Int := m.seconds * 1000000 + value (ljust 6 0 m.fraction)

def Moment.held (m : Moment) : TimeRead := if 1 ≤ m.year then astimezone m.micros else .valueError

theorem fraction_lt {m : Moment} {n : Nat} : value (ljust n 0 m.fraction) < 10 ^ n := by
  have hlt := value_lt (ljust n 0 m.fraction) (fun d hd => by
    rcases mem_ljust hd with hd | rfl
    · exact m.fraction_digits d hd
    · decide)
  rwa [ljust_length] at hlt

/-- The first six of nine digits are the microseconds of the nanoseconds. -/
theorem fraction_split (ds : List Nat) (h : ∀ d ∈ ds, d < 10) :
    value (ljust 9 0 ds) / 1000 = value (ljust 6 0 ds) := by
  have hlen : ((ljust 9 0 ds).drop 6).length = 3 := by
    rw [List.length_drop, ljust_length]
  have happ := value_append ((ljust 9 0 ds).take 6) ((ljust 9 0 ds).drop 6)
  rw [List.take_append_drop, ljust_take (by omega), hlen] at happ
  have hlt := value_lt ((ljust 9 0 ds).drop 6) (fun d hd => by
    rcases mem_ljust (List.mem_of_mem_drop hd) with hd | rfl
    · exact h d hd
    · decide)
  rw [hlen] at hlt
  omega

/-- What `datetime` holds is the instant, cut to microseconds. -/
theorem Moment.micros_eq (m : Moment) : m.micros = m.nanos / 1000 := by
  have hsplit := fraction_split m.fraction m.fraction_digits
  have hlt : value (ljust 9 0 m.fraction) < 10 ^ 9 := fraction_lt
  rw [micros, nanos]
  omega

theorem Moment.inRange_micros (m : Moment) : inRange m.micros = inRange (m.seconds * 1000000) := by
  have hlt : value (ljust 6 0 m.fraction) < 10 ^ 6 := fraction_lt
  rw [Bool.eq_iff_iff, inRange, inRange, Bool.and_eq_true, Bool.and_eq_true, decide_eq_true_eq, decide_eq_true_eq,
    decide_eq_true_eq, decide_eq_true_eq, micros]
  omega

/-- A moment is read as its instant if it can be held, and else as none. -/
theorem held_iff (m : Moment) : m.held = .instant (m.nanos / 1000) ↔ m.Holdable := by
  rw [Moment.held, Moment.Holdable, astimezone, m.inRange_micros, ← m.micros_eq]
  by_cases hyear : 1 ≤ m.year
  · rw [if_pos hyear, and_iff_right hyear]
    cases inRange (m.seconds * 1000000) with
    | true => exact iff_of_true rfl rfl
    | false => exact iff_of_false nofun nofun
  · rw [if_neg hyear]
    exact iff_of_false nofun fun h => hyear h.1

/-- No moment is held as another instant. -/
theorem held_instant {m : Moment} {instant : Int} (h : m.held = .instant instant) : instant = m.nanos / 1000 := by
  rw [Moment.held, astimezone] at h
  split at h
  · split at h
    · cases h
      exact m.micros_eq
    · cases h
  · cases h

theorem ordinal_eq {m : Moment} (h : 1 ≤ m.year) : m.ordinal = toordinal m.year m.month m.day := by
  rw [Moment.ordinal, toordinal]
  omega

theorem isDate_eq (m : Moment) : isDate m.year m.month m.day m.hour m.minute m.second = decide (1 ≤ m.year) := by
  obtain ⟨hmonth, hmonth'⟩ := m.month_valid
  obtain ⟨hday, hday'⟩ := m.day_valid
  obtain ⟨hhour, hminute, hsecond⟩ := m.clock_valid
  rw [isDate]
  simp only [hmonth, hmonth', hday, hday', hhour, hminute, hsecond, decide_true, Bool.and_true]

/-- The zone's offset in microseconds. -/
def offsetMicros (m : Moment) : Int := m.zone.ahead * 60 * 1000000

theorem offset_lt (m : Moment) : (offsetMicros m).natAbs < microsPerDay := by
  have hvalid := m.zone_valid
  rw [offsetMicros, microsPerDay]
  cases hzone : m.zone with
  | utc => exact (by decide : (0 : Nat) < 86400 * 1000000)
  | offset behind hours minutes =>
    rw [hzone] at hvalid
    obtain ⟨hhours, hminutes⟩ := hvalid
    cases behind with
    | false =>
      show ((hours * 60 + minutes : Int) * 60 * 1000000).natAbs < 86400 * 1000000
      omega
    | true =>
      show (-(hours * 60 + minutes : Int) * 60 * 1000000).natAbs < 86400 * 1000000
      omega

theorem datetime_held (m : Moment) {micros : Nat} (h : micros = value (ljust 6 0 m.fraction)) :
    datetime m.year m.month m.day m.hour m.minute m.second micros (offsetMicros m) = m.held := by
  rw [datetime, isDate_eq, decide_eq_true (offset_lt m), Bool.and_true, Moment.held]
  by_cases hyear : 1 ≤ m.year
  · have hinstant : utcSeconds m.year m.month m.day m.hour m.minute m.second 0 * 1000000 + micros - offsetMicros m =
        m.micros := by
      rw [Moment.micros, Moment.seconds, ordinal_eq hyear, utcSeconds, offsetMicros, h]
      omega
    rw [if_pos (decide_eq_true hyear), if_pos hyear, hinstant]
  · rw [if_neg (by simpa using hyear), if_neg hyear]

end Held

/-! ## Characters -/

section Characters

open Errand.Server.LogStamps hiding Text

theorem digit_facts {n : Nat} (h : n < 10) :
    isSpace (Nat.digitChar n) = false ∧ beginsZone (Nat.digitChar n) = false ∧ Nat.digitChar n ≠ 'U' ∧
      Nat.digitChar n ≠ 'm' ∧ Nat.digitChar n ≠ '=' ∧ Nat.digitChar n ≠ 'Z' ∧ Nat.digitChar n ≠ ':' := by
  interval_cases n
  all_goals decide

/-- Two digits of a number below a hundred. -/
theorem mem_digits {n : Nat} (h : n < 100) {c : Char} (hc : c ∈ digits n) : ∃ d < 10, c = Nat.digitChar d := by
  rcases List.mem_cons.mp hc with rfl | hc
  · exact ⟨n / 10, by omega, rfl⟩
  · exact ⟨n % 10, by omega, List.mem_singleton.mp hc⟩

theorem daysInMonth_le (year month : Nat) : daysInMonth year month ≤ 31 := by
  unfold daysInMonth
  repeat' split
  all_goals decide

theorem Moment.bounds (m : Moment) : m.month < 100 ∧ m.day < 100 ∧ m.hour < 100 ∧ m.minute < 100 ∧ m.second < 100 := by
  obtain ⟨-, hmonth⟩ := m.month_valid
  obtain ⟨-, hday⟩ := m.day_valid
  obtain ⟨hhour, hminute, hsecond⟩ := m.clock_valid
  have hlong := daysInMonth_le m.year m.month
  omega

theorem Moment.mem_date (m : Moment) {c : Char} (h : c ∈ m.date) : c = '-' ∨ ∃ d < 10, c = Nat.digitChar d := by
  obtain ⟨hmonth, hday, -⟩ := m.bounds
  have hyear := m.year_le
  simp only [date, List.mem_append, List.mem_cons] at h
  rcases h with ((h | h) | rfl | h) | rfl | h
  all_goals first
    | exact .inl rfl
    | exact .inr (mem_digits (by omega) h)

theorem Moment.mem_clock (m : Moment) {c : Char} (h : c ∈ m.clock ++ m.fractionText) :
    c = ':' ∨ c = '.' ∨ ∃ d < 10, c = Nat.digitChar d := by
  obtain ⟨-, -, hhour, hminute, hsecond⟩ := m.bounds
  rcases List.mem_append.mp h with h | h
  · simp only [clock, List.mem_append, List.mem_cons] at h
    rcases h with (h | rfl | h) | rfl | h
    all_goals first
      | exact .inl rfl
      | exact .inr (.inr (mem_digits (by omega) h))
  · rw [fractionText] at h
    split at h
    · cases h
    · rcases List.mem_cons.mp h with rfl | h
      · exact .inr (.inl rfl)
      · obtain ⟨d, hd, rfl⟩ := List.mem_map.mp h
        exact .inr (.inr ⟨d, m.fraction_digits d hd, rfl⟩)

/-- The zone as a sign, hours and minutes. -/
theorem zone_parts {zone : Zone} (hvalid : zone.Valid) :
    ∃ behind hours minutes, hours < 24 ∧ minutes < 60 ∧
      numericZone zone = sign behind :: digits hours ++ digits minutes ∧
      zone.ahead = if behind then -(hours * 60 + minutes : Int) else hours * 60 + minutes := by
  cases zone with
  | utc => exact ⟨false, 0, 0, by decide, by decide, rfl, rfl⟩
  | offset behind hours minutes => exact ⟨behind, hours, minutes, hvalid.1, hvalid.2, rfl, rfl⟩

theorem mem_numericZone {zone : Zone} (hvalid : zone.Valid) {c : Char} (h : c ∈ numericZone zone) :
    c = '+' ∨ c = '-' ∨ ∃ d < 10, c = Nat.digitChar d := by
  obtain ⟨behind, hours, minutes, hhours, hminutes, hzone, -⟩ := zone_parts hvalid
  rw [hzone] at h
  rcases List.mem_cons.mp h with rfl | h
  · cases behind with
    | false => exact .inl rfl
    | true => exact .inr (.inl rfl)
  · rcases List.mem_append.mp h with h | h
    · exact .inr (.inr (mem_digits (by omega) h))
    · exact .inr (.inr (mem_digits (by omega) h))

/-- The characters of the three parts hold what no character has that one may be. -/
theorem Moment.date_ne (m : Moment) {c : Char} (hc : c ≠ '-') (hd : ∀ d < 10, Nat.digitChar d ≠ c) :
    ∀ x ∈ m.date, x ≠ c := by
  intro x hx
  rcases m.mem_date hx with rfl | ⟨d, hlt, rfl⟩
  · exact hc.symm
  · exact hd d hlt

theorem Moment.clock_ne (m : Moment) {c : Char} (hcolon : c ≠ ':') (hpoint : c ≠ '.')
    (hd : ∀ d < 10, Nat.digitChar d ≠ c) : ∀ x ∈ m.clock ++ m.fractionText, x ≠ c := by
  intro x hx
  rcases m.mem_clock hx with rfl | rfl | ⟨d, hlt, rfl⟩
  · exact hcolon.symm
  · exact hpoint.symm
  · exact hd d hlt

theorem sign_ne (behind : Bool) : sign behind ≠ 'Z' ∧ beginsZone (sign behind) = true ∧ isSpace (sign behind) = false ∧
    (sign behind = '-' ↔ behind = true) := by
  cases behind <;> decide

/-- A character of a name is none that stands between the parts. -/
def Plain (c : Char) : Prop := isSpace c = false ∧ c ≠ ' ' ∧ c ≠ '='

theorem letter_plain {c : Char} (h : isLetter c = true) : Plain c ∧ isDigit c = false ∧ c ≠ ':' := by
  have hall : ∀ n < 123, isLetter (Char.ofNat n) = true → isSpace (Char.ofNat n) = false ∧ Char.ofNat n ≠ ' ' ∧
      Char.ofNat n ≠ '=' ∧ isDigit (Char.ofNat n) = false ∧ Char.ofNat n ≠ ':' := by decide
  have hlt : c.toNat < 123 := by
    rw [isLetter, Bool.or_eq_true, range, range, Bool.and_eq_true, Bool.and_eq_true, decide_eq_true_eq,
      decide_eq_true_eq, decide_eq_true_eq, decide_eq_true_eq] at h
    rcases h with ⟨-, h⟩ | ⟨-, h⟩
    · have hle : c.toNat ≤ 90 := Char.le_def.mp h
      omega
    · have hle : c.toNat ≤ 122 := Char.le_def.mp h
      omega
  have hc := hall c.toNat hlt
  rw [Char.ofNat_toNat] at hc
  obtain ⟨hspace, hblank, heq, hdigit, hcolon⟩ := hc h
  exact ⟨⟨hspace, hblank, heq⟩, hdigit, hcolon⟩

theorem digit_plain {n : Nat} (h : n < 10) : Plain (Nat.digitChar n) := by
  interval_cases n
  all_goals exact ⟨by decide, by decide, by decide⟩

theorem sign_plain (behind : Bool) : Plain (sign behind) := by
  cases behind
  all_goals exact ⟨by decide, by decide, by decide⟩

theorem ZoneName.plain (name : ZoneName) : name.text ≠ [] ∧ ∀ c ∈ name.text, Plain c := by
  rcases name.printed with ⟨hne, hletters⟩ | ⟨behind, ds, htext, hds⟩
  · exact ⟨hne, fun c hc => (letter_plain (hletters c hc)).1⟩
  · rw [htext]
    refine ⟨List.cons_ne_nil _ _, ?_⟩
    intro c hc
    rcases List.mem_cons.mp hc with rfl | hc
    · exact sign_plain behind
    · obtain ⟨d, hd, rfl⟩ := List.mem_map.mp hc
      exact digit_plain (hds d hd)

/-- A name that is "UTC" and something is of letters. -/
theorem ZoneName.letters {name : ZoneName} {r : Text} (h : name.text = 'U' :: r) : ∀ c ∈ r, isLetter c = true := by
  rcases name.printed with ⟨-, hletters⟩ | ⟨behind, ds, htext, -⟩
  · exact fun c hc => hletters c (h ▸ List.mem_cons_of_mem _ hc)
  · have hsign := (List.cons.inj (h.symm.trans htext)).1
    cases behind
    all_goals exact absurd hsign (by decide)

theorem Monotonic.reading_plain (m : Monotonic) : m.reading ≠ [] ∧ ∀ c ∈ m.reading, Plain c := by
  refine ⟨nofun, ?_⟩
  intro c hc
  have hdigits : ∀ ds : List Nat, (∀ d ∈ ds, d < 10) → c ∈ ds.map Nat.digitChar → Plain c := by
    intro ds hds hc
    obtain ⟨d, hd, rfl⟩ := List.mem_map.mp hc
    exact digit_plain (hds d hd)
  rcases List.mem_append.mp hc with hc | hc
  · rcases List.mem_cons.mp hc with rfl | hc
    · exact sign_plain m.behind
    · exact hdigits _ m.whole_digits hc
  · rcases List.mem_cons.mp hc with rfl | hc
    · exact ⟨by decide, by decide, by decide⟩
    · exact hdigits _ m.fraction_digits hc

end Characters

end Errand.Gateway.Moments

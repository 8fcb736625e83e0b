import Errand.Gateway.Moments

/-
  Errand.Gateway.IsoTimes — what `fromisoformat` reads of the renderings of a moment.

  Proved:
  - `parseClock_clock`, `parseZone_iso`: the clock of a moment, and its zone.
  - `fromIsoFormat_rfc3339`: an RFC3339 time is read as its moment.
  - `fromIsoFormat_goString`: none of Go's is read.
-/

namespace Errand.Gateway.IsoTimes

open Errand.Lib Errand.Lib.PyStr Errand.Lib.Alternatives Errand.Gateway.Datetime Errand.Gateway.Moments
open Errand.Server.LogStamps hiding Text

theorem twoDigits_digits {n : Nat} (h : n < 100) : twoDigits (Nat.digitChar (n / 10)) (Nat.digitChar (n % 10)) = some n :=
  number_digits h

theorem parseDate_date (m : Moment) : parseDate m.date = some (m.year, m.month, m.day) := by
  obtain ⟨hmonth, hday, -⟩ := m.bounds
  have hyear := number_year m.year_le
  show ((number? (digits (m.year / 100) ++ digits (m.year % 100))).bind fun year => _) = _
  rw [hyear]
  show ((twoDigits _ _).bind fun month => _) = _
  rw [twoDigits_digits hmonth]
  show ((twoDigits _ _).map fun day => _) = _
  rw [twoDigits_digits hday]
  rfl

/-- Of a text with the date in front, what counts is the time of day and the zone. -/
theorem fromIsoFormat_date (other : Text → TimeRead) (m : Moment) (c : Char) {time : Text} (htime : time ≠ [])
    (hplain : ∀ x ∈ time, beginsZone x = false) {z : Char} (hz : beginsZone z = true) (zone : Text) :
    fromIsoFormat other (m.date ++ c :: (time ++ z :: zone)) =
      match parseClock 3 true time with
      | none => .valueError
      | some (numbers, micros, _) =>
        match parseZone (z :: zone) with
        | none => .valueError
        | some offset =>
          datetime m.year m.month m.day ((numbers[0]?).getD 0) ((numbers[1]?).getD 0) ((numbers[2]?).getD 0) micros
            offset := by
  have hlen : m.date.length = 10 := rfl
  have hmonth : m.month / 10 < 10 := by
    have hbound := m.bounds.1
    omega
  have hweek : (m.date ++ c :: (time ++ z :: zone))[5]? ≠ some 'W' := by
    show some (Nat.digitChar (m.month / 10)) ≠ some 'W'
    have hall : ∀ d < 10, some (Nat.digitChar d) ≠ some 'W' := by decide
    exact hall _ hmonth
  have hno : ¬ ((m.date ++ c :: (time ++ z :: zone)).length ≤ 11 ∨ (m.date ++ c :: (time ++ z :: zone))[4]? ≠ some '-' ∨
      (m.date ++ c :: (time ++ z :: zone))[5]? = some 'W') := by
    rintro (h | h | h)
    · have hpos := List.length_pos_of_ne_nil htime
      rw [List.length_append, hlen, List.length_cons, List.length_append, List.length_cons] at h
      omega
    · exact h rfl
    · exact hweek h
  have hdrop : (m.date ++ c :: (time ++ z :: zone)).drop 11 = time ++ z :: zone := rfl
  have hrun : splitRun (fun c => !beginsZone c) (time ++ z :: zone) = (time, z :: zone) := by
    refine splitRun_append (fun x hx => by rw [hplain x hx]; rfl) ?_
    rintro x ⟨⟩
    rw [hz]
    rfl
  rw [fromIsoFormat, if_neg hno, List.take_left' hlen, parseDate_date, hdrop]
  dsimp only
  rw [hrun]
  cases parseClock 3 true time with
  | none => rfl
  | some r => rfl

theorem clock_plain (m : Moment) : ∀ x ∈ m.clock ++ m.fractionText, beginsZone x = false := by
  intro x hx
  rcases m.mem_clock hx with rfl | rfl | ⟨d, hd, rfl⟩
  · rfl
  · rfl
  · exact (digit_facts hd).2.1

theorem clock_ne_nil (m : Moment) (s : Text) : m.clock ++ s ≠ [] := nofun

theorem parseClock_end {a b : Char} {v : Nat} (h : twoDigits a b = some v) (n : Nat) (separated : Bool) :
    parseClock (n + 1) separated [a, b] = some ([v], 0, false) := by
  rw [parseClock, h]

theorem parseClock_colon {a b : Char} {v : Nat} (h : twoDigits a b = some v) (n : Nat) (c : Char) (s : Text) :
    parseClock (n + 1) true (a :: b :: ':' :: c :: s) =
      (parseClock n true (c :: s)).map fun r => (v :: r.1, r.2) := by
  have hseparated : (if n = 2 then ':' == ':' else true) = true := by
    split <;> rfl
  rw [parseClock, h]
  dsimp only
  rw [hseparated]
  rfl

theorem parseClock_point {a b : Char} {v : Nat} (h : twoDigits a b = some v) {n : Nat} (hn : n ≠ 2) (c : Char)
    (s : Text) :
    parseClock (n + 1) true (a :: b :: '.' :: c :: s) = (parseFraction (c :: s)).map fun r => ([v], r.1, r.2) := by
  rw [parseClock, h]
  dsimp only
  rw [if_neg hn]
  rfl

theorem value_replicate (n : Nat) : value (List.replicate n 0) = 0 := by
  induction n with
  | zero => rfl
  | succ n ih =>
    rw [List.replicate_succ]
    exact ih

theorem parseFraction_digits {ds : List Nat} (hds : ∀ d ∈ ds, d < 10) :
    parseFraction (ds.map Nat.digitChar) = some (value (ljust 6 0 ds), false) := by
  have hpadded : ljust 6 0 ds = ds.take 6 ++ List.replicate (6 - (ds.take 6).length) 0 := by
    rw [ljust, List.take_append, List.take_replicate, List.length_take]
    congr 2
    omega
  have hvalue : value (ljust 6 0 ds) = value (ds.take 6) * 10 ^ (6 - (ds.take 6).length) := by
    rw [hpadded, value_append, value_replicate, List.length_replicate, Nat.add_zero]
  have hrest : ((ds.map Nat.digitChar).drop 6).dropWhile Char.isDigit = [] := by
    rw [List.dropWhile_eq_nil_iff, ← List.map_drop]
    intro c hc
    obtain ⟨d, hd, rfl⟩ := List.mem_map.mp hc
    exact (digitChar_digit (hds d (List.mem_of_mem_drop hd))).2.1
  rw [parseFraction, hrest, ← List.map_take, number_map _ fun d hd => hds d (List.mem_of_mem_take hd), hvalue,
    List.length_map]
  rfl

/-- The clock of a moment, with its digits behind the point. -/
theorem parseClock_clock (m : Moment) :
    parseClock 3 true (m.clock ++ m.fractionText) =
      some ([m.hour, m.minute, m.second], value (ljust 6 0 m.fraction), false) := by
  obtain ⟨-, -, hhour, hminute, hsecond⟩ := m.bounds
  have hclock : m.clock ++ m.fractionText =
      Nat.digitChar (m.hour / 10) :: Nat.digitChar (m.hour % 10) :: ':' :: Nat.digitChar (m.minute / 10) ::
        Nat.digitChar (m.minute % 10) :: ':' :: Nat.digitChar (m.second / 10) :: Nat.digitChar (m.second % 10) ::
          m.fractionText := rfl
  rw [hclock, parseClock_colon (twoDigits_digits hhour), parseClock_colon (twoDigits_digits hminute),
    Moment.fractionText]
  by_cases hnil : m.fraction = []
  · rw [if_pos hnil, parseClock_end (twoDigits_digits hsecond), hnil]
    rfl
  · obtain ⟨d, ds, hfraction⟩ := List.exists_cons_of_ne_nil hnil
    have hdigits := parseFraction_digits m.fraction_digits
    rw [hfraction, List.map_cons] at hdigits
    rw [if_neg hnil, hfraction, List.map_cons, parseClock_point (twoDigits_digits hsecond) (by decide), hdigits]
    rfl

/-- The zone of an RFC3339 time, with Z replaced. -/
def isoZone : Zone → Text
  | .utc => "+00:00".toList
  | .offset behind hours minutes => sign behind :: digits hours ++ ':' :: digits minutes

theorem isoZone_parts {zone : Zone} (hvalid : zone.Valid) :
    ∃ behind hours minutes, hours < 24 ∧ minutes < 60 ∧
      isoZone zone = sign behind :: (digits hours ++ ':' :: digits minutes) ∧
      zone.ahead = if behind then -(hours * 60 + minutes : Int) else hours * 60 + minutes := by
  cases zone with
  | utc => exact ⟨false, 0, 0, by decide, by decide, by decide, rfl⟩
  | offset behind hours minutes => exact ⟨behind, hours, minutes, hvalid.1, hvalid.2, rfl, rfl⟩

theorem parseZone_sign {c : Char} (hc : c ≠ 'Z') (s : Text) :
    parseZone (c :: s) =
      match parseClock 3 true s with
      | some (numbers, micros, false) =>
        some (if c = '-' then -(clockMicros numbers micros : Int) else clockMicros numbers micros)
      | _ => none := by
  rw [parseZone]
  all_goals first
    | exact hc
    | rfl

theorem parseZone_iso (m : Moment) : parseZone (isoZone m.zone) = some (offsetMicros m) := by
  obtain ⟨behind, hours, minutes, hhours, hminutes, hzone, hahead⟩ := isoZone_parts m.zone_valid
  have hclock : parseClock 3 true (digits hours ++ ':' :: digits minutes) = some ([hours, minutes], 0, false) := by
    have hparts : digits hours ++ ':' :: digits minutes =
        Nat.digitChar (hours / 10) :: Nat.digitChar (hours % 10) :: ':' :: Nat.digitChar (minutes / 10) ::
          [Nat.digitChar (minutes % 10)] := rfl
    rw [hparts, parseClock_colon (twoDigits_digits (by omega)), parseClock_end (twoDigits_digits (by omega))]
    rfl
  have hmicros : (clockMicros [hours, minutes] 0 : Int) = (hours * 60 + minutes) * 60 * 1000000 := by
    simp only [clockMicros, List.getElem?_cons_zero, List.getElem?_cons_succ, List.getElem?_nil, Option.getD_some,
      Option.getD_none]
    omega
  rw [hzone, parseZone_sign (sign_ne behind).1, hclock]
  dsimp only
  rw [hmicros, offsetMicros, hahead, Option.some_inj]
  cases behind with
  | false => rw [if_neg (by decide), if_neg (by decide)]
  | true =>
    rw [if_pos (by decide), if_pos rfl]
    omega

/-- An RFC3339 time is read as its moment. -/
theorem fromIsoFormat_rfc3339 (other : Text → TimeRead) (m : Moment) :
    fromIsoFormat other (m.date ++ 'T' :: (m.clock ++ m.fractionText ++ isoZone m.zone)) = m.held := by
  obtain ⟨behind, hours, minutes, -, -, hzone, -⟩ := isoZone_parts m.zone_valid
  have hoffset := parseZone_iso m
  rw [hzone] at hoffset ⊢
  rw [fromIsoFormat_date other m 'T' (clock_ne_nil m _) (clock_plain m) (sign_ne behind).2.1, parseClock_clock]
  dsimp only
  rw [hoffset]
  exact datetime_held m rfl

/-- A zone that has no colon and is not the end is none to `fromisoformat`. -/
theorem parseZone_name {zone : Zone} (hvalid : zone.Valid) (c : Char) (s : Text) :
    parseZone (numericZone zone ++ ' ' :: c :: s) = none := by
  obtain ⟨behind, hours, minutes, hhours, hminutes, hzone, -⟩ := zone_parts hvalid
  have hblank : parseClock 1 false (' ' :: c :: s) = none := by
    rw [parseClock, twoDigits, number?, if_neg]
    rw [List.all_cons]
    exact Bool.false_ne_true
  have hdigit : ∀ d < 10, (Nat.digitChar d == ':') = false ∧ (Nat.digitChar d == '.') = false ∧
      (Nat.digitChar d == ',') = false := by decide
  obtain ⟨hcolon, hpoint, hcomma⟩ := hdigit (minutes / 10) (by omega)
  have hminute : parseClock 2 false (Nat.digitChar (minutes / 10) :: Nat.digitChar (minutes % 10) :: ' ' :: c :: s) =
      none := by
    rw [parseClock, twoDigits_digits (by omega)]
    dsimp only
    have hlater : (if 1 = 2 then ' ' == ':' else false) = false := rfl
    rw [hlater, hblank]
    rfl
  have hclock : parseClock 3 true (digits hours ++ digits minutes ++ ' ' :: c :: s) = none := by
    have hparts : digits hours ++ digits minutes ++ ' ' :: c :: s =
        Nat.digitChar (hours / 10) :: Nat.digitChar (hours % 10) :: Nat.digitChar (minutes / 10) ::
          Nat.digitChar (minutes % 10) :: ' ' :: c :: s := rfl
    rw [hparts, parseClock, twoDigits_digits (by omega)]
    dsimp only
    rw [if_pos rfl, hcolon, hpoint, hcomma, hminute]
    rfl
  have htext : numericZone zone ++ ' ' :: c :: s = sign behind :: (digits hours ++ digits minutes ++ ' ' :: c :: s) := by
    rw [hzone]
    rfl
  rw [htext, parseZone_sign (sign_ne behind).1, hclock]

/-- No time of Go's is one of `fromisoformat`. -/
theorem fromIsoFormat_goString (other : Text → TimeRead) (m : Moment) (c : Char) (s : Text) :
    fromIsoFormat other (m.date ++ ' ' :: (m.clock ++ m.fractionText ++ ' ' :: (numericZone m.zone ++ ' ' :: c :: s))) =
      .valueError := by
  obtain ⟨behind, hours, minutes, -, -, hzone, -⟩ := zone_parts m.zone_valid
  have hnone := parseZone_name m.zone_valid c s
  have hsign : numericZone m.zone ++ ' ' :: c :: s = sign behind :: (digits hours ++ digits minutes ++ ' ' :: c :: s) := by
    rw [hzone]
    rfl
  rw [hsign] at hnone ⊢
  have hplain : ∀ x ∈ m.clock ++ m.fractionText ++ [' '], beginsZone x = false := by
    intro x hx
    rcases List.mem_append.mp hx with hx | hx
    · exact clock_plain m x hx
    · rw [List.mem_singleton.mp hx]
      rfl
  have htext : ∀ rest, m.clock ++ m.fractionText ++ ' ' :: rest = (m.clock ++ m.fractionText ++ [' ']) ++ rest := by
    intro rest
    rw [List.append_assoc _ [' ']]
    rfl
  rw [htext, fromIsoFormat_date other m ' ' (List.append_ne_nil_of_right_ne_nil _ (List.cons_ne_nil _ _)) hplain
    (sign_ne behind).2.1, hnone]
  cases parseClock 3 true (m.clock ++ m.fractionText ++ [' ']) with
  | none => rfl
  | some r => rfl

end Errand.Gateway.IsoTimes

import Errand.Gateway.Moments

/-
  Errand.Gateway.TimeFormats — what the four formats of `_parse_time` of
  workspace-gateway/cache_reconcile.py read of the renderings of a moment.

  Proved:
  - `matchAt_date`, `matchAt_clock`, `matchAt_fraction`, `matchAt_zone`: the fields of a moment
    are taken whole by theirs, of the digits behind the point one to six.
  - `strptime_whole`: a match of a whole text is read as the moment.
  - `readFormats_goText`: of a time of Go's the formats read one that ends with the zone and has
    at most six digits behind the point.
  - `readFormats_rfc3339`: of an RFC3339 time none does.
-/

namespace Errand.Gateway.TimeFormats

open Errand.Lib Errand.Lib.PyStr Errand.Lib.Alternatives Errand.Gateway.Datetime Errand.Gateway.Moments
open Errand.Server.LogStamps hiding Text isSign fits

/-! ## Fields -/

/-- A class of digits only. -/
def Digits (q : Char → Bool) : Prop := ∀ c, q c = true → isDigit c = true

theorem digits_class : Digits isDigit := fun _ => id

theorem digits_is {a : Char} (h : isDigit a = true) : Digits (is a) := by
  intro c hc
  rw [beq_iff_eq.mp hc]
  exact h

theorem digits_range {a b : Char} (ha : '0' ≤ a) (hb : b ≤ '9') : Digits (range a b) := by
  intro c hc
  rw [range, Bool.and_eq_true, decide_eq_true_eq, decide_eq_true_eq] at hc
  have hlow : 48 ≤ c.toNat := Char.le_def.mp (Char.le_trans ha hc.1)
  have hhigh : c.toNat ≤ 57 := Char.le_def.mp (Char.le_trans hc.2 hb)
  rw [isDigit, digit?, zeros, List.find?_cons_of_pos]
  · rfl
  · simp only [Bool.and_eq_true, decide_eq_true_eq]
    omega

/-- No digit is what stands between the fields. -/
theorem digit_miss {c : Char} (h : isDigit c = true) :
    isSpace c = false ∧ ∀ a ∈ [' ', '-', ':', '.'], is a c = false := by
  constructor
  · have hall : ∀ z ∈ zeros, ∀ i < 10, isSpace (Char.ofNat (z + i)) = false := by decide
    rw [isDigit, digit?, Option.isSome_map] at h
    obtain ⟨z, hz⟩ := Option.isSome_iff_exists.mp h
    have hmem := List.mem_of_find?_eq_some hz
    have hin := List.find?_some hz
    simp only [Bool.and_eq_true, decide_eq_true_eq] at hin
    have hc := hall z hmem (c.toNat - z) (by omega)
    rwa [Nat.add_sub_cancel' hin.1, Char.ofNat_toNat] at hc
  · intro a ha
    refine beq_eq_false_iff_ne.mpr ?_
    rintro rfl
    simp only [List.mem_cons, List.not_mem_nil, or_false] at ha
    rcases ha with rfl | rfl | rfl | rfl
    all_goals exact absurd h (by decide)

/-- The alternatives of a directive of numbers take digits only. -/
theorem directive_within {name : Char} (h : name ∈ ['Y', 'm', 'd', 'H', 'M', 'S', 'f']) :
    Within isDigit (directive name) := by
  have hblank : ∀ c, isDigit c = true → is ' ' c = false := fun c hc => (digit_miss hc).2 ' ' (by decide)
  have hdigits : ∀ {alternatives : List (List (Char → Bool))}, (∀ alt ∈ alternatives, ∀ q ∈ alt, Digits q) →
      Within isDigit alternatives := fun hall => within_of fun alt halt => .inl (hall alt halt)
  simp only [List.mem_cons, List.not_mem_nil, or_false] at h
  rcases h with rfl | rfl | rfl | rfl | rfl | rfl | rfl
  case inr.inr.inl =>
    -- A day may begin with a blank, which is none of the digits.
    refine within_of fun alt halt => ?_
    simp only [directive, List.mem_cons, List.not_mem_nil, or_false] at halt
    rcases halt with rfl | rfl | rfl | rfl | rfl
    case inr.inr.inr.inr => exact .inr ⟨is ' ', [range '1' '9'], rfl, hblank⟩
    all_goals
      refine .inl (show ∀ q ∈ _, Digits q from ?_)
      simp (disch := decide) only [List.forall_mem_cons, digits_class, digits_is, digits_range, and_self,
        List.not_mem_nil, false_implies, implies_true]
  case inr.inr.inr.inr.inr.inr =>
    refine hdigits fun alt halt => ?_
    obtain ⟨n, -, rfl⟩ := List.mem_map.mp halt
    intro q hq
    rw [List.eq_of_mem_replicate hq]
    exact digits_range (by decide) (by decide)
  all_goals
    refine hdigits ?_
    simp (disch := decide) only [directive, List.forall_mem_cons, digits_class, digits_is, digits_range, and_self,
      List.not_mem_nil, false_implies, implies_true]

/-- A number of two digits, or of four, with something behind it. -/
theorem matchAt_number {name : Char} (h : name ∈ ['Y', 'm', 'd', 'H', 'M', 'S', 'f']) {items : Pattern}
    (hitems : ∀ d s, isDigit d = true → matchAt items (d :: s) = none) {ds : Text} (hne : ds ≠ [])
    (hds : ∀ d ∈ ds, isDigit d = true)
    (hfits : (directive name).any (fun alt => alt.length == ds.length && fits alt ds) = true) {c : Char} (hc : isDigit c = false) (rest : Text) :
    matchAt (.field name (directive name) :: items) (ds ++ c :: rest) =
      (matchAt items (c :: rest)).map fun r => ((name, ds) :: r.1, r.2) := by
  rw [matchAt_field (directive_within h) hitems hne hds hc, if_pos hfits]

theorem miss_char {a : Char} (ha : a ∈ [' ', '-', ':', '.']) (items : Pattern) (d : Char) (s : Text)
    (h : isDigit d = true) : matchAt (.char (is a) :: items) (d :: s) = none :=
  matchAt_miss_char ((digit_miss h).2 a ha) items s

theorem miss_spaces (items : Pattern) (d : Char) (s : Text) (h : isDigit d = true) :
    matchAt (.spaces :: items) (d :: s) = none := matchAt_miss_space (digit_miss h).1 items s

theorem isDigit_digits {n : Nat} (h : n < 100) : ∀ c ∈ digits n, isDigit c = true := by
  intro c hc
  obtain ⟨d, hd, rfl⟩ := mem_digits h hc
  have hall : ∀ d < 10, isDigit (Nat.digitChar d) = true := by decide
  exact hall d hd

/-- The directive has a number of two digits. -/
def Reads (name : Char) (n : Nat) : Prop :=
  (directive name).any (fun alt => alt.length == (digits n).length && fits alt (digits n)) = true

instance (name : Char) (n : Nat) : Decidable (Reads name n) := inferInstanceAs (Decidable (_ = true))

theorem reads_month {n : Nat} (h : 1 ≤ n ∧ n ≤ 12) : Reads 'm' n := by
  have hall : ∀ n < 13, 1 ≤ n → Reads 'm' n := by decide
  exact hall n (by omega) h.1

theorem reads_day {n : Nat} (h : 1 ≤ n ∧ n ≤ 31) : Reads 'd' n := by
  have hall : ∀ n < 32, 1 ≤ n → Reads 'd' n := by decide
  exact hall n (by omega) h.1

theorem reads_hour {n : Nat} (h : n < 24) : Reads 'H' n := by
  have hall : ∀ n < 24, Reads 'H' n := by decide
  exact hall n h

theorem reads_sixty {n : Nat} (h : n < 60) : Reads 'M' n ∧ Reads 'S' n := by
  have hall : ∀ n < 60, Reads 'M' n ∧ Reads 'S' n := by decide
  exact hall n h

/-! ## The four formats -/

def datePattern : Pattern :=
  [.field 'Y' (directive 'Y'), .char (is '-'), .field 'm' (directive 'm'), .char (is '-'), .field 'd' (directive 'd')]

def clockPattern : Pattern :=
  [.field 'H' (directive 'H'), .char (is ':'), .field 'M' (directive 'M'), .char (is ':'), .field 'S' (directive 'S')]

def fractionPattern : Pattern := [.char (is '.'), .field 'f' (directive 'f')]

def zonePattern : Pattern := [.spaces, .field 'z' (directive 'z')]

def dateFields (m : Moment) : List (Char × Text) :=
  [('Y', digits (m.year / 100) ++ digits (m.year % 100)), ('m', digits m.month), ('d', digits m.day)]

def clockFields (m : Moment) : List (Char × Text) := [('H', digits m.hour), ('M', digits m.minute), ('S', digits m.second)]

/-- Two digits behind which there is what is none. -/
theorem matchAt_two {name : Char} (h : name ∈ ['Y', 'm', 'd', 'H', 'M', 'S', 'f']) {items : Pattern}
    (hitems : ∀ d s, isDigit d = true → matchAt items (d :: s) = none) {n : Nat} (hn : n < 100) (hreads : Reads name n)
    {c : Char} (hc : isDigit c = false) (rest : Text) :
    matchAt (.field name (directive name) :: items) (digits n ++ c :: rest) =
      (matchAt items (c :: rest)).map fun r => ((name, digits n) :: r.1, r.2) :=
  matchAt_number h hitems (List.cons_ne_nil _ _) (isDigit_digits hn) hreads hc rest

theorem matchAt_date (m : Moment) {items : Pattern} (hitems : ∀ d s, isDigit d = true → matchAt items (d :: s) = none)
    {c : Char} (hc : isDigit c = false) (rest : Text) :
    matchAt (datePattern ++ items) (m.date ++ c :: rest) =
      (matchAt items (c :: rest)).map fun r => (dateFields m ++ r.1, r.2) := by
  obtain ⟨hmonth, hday, -⟩ := m.bounds
  have hyear := m.year_le
  have hdash : isDigit '-' = false := by decide
  have hlong := daysInMonth_le m.year m.month
  have hdays : ∀ d ∈ digits (m.year / 100) ++ digits (m.year % 100), isDigit d = true := by
    intro d hd
    rcases List.mem_append.mp hd with hd | hd
    · exact isDigit_digits (by omega) d hd
    · exact isDigit_digits (by omega) d hd
  have hfits : (directive 'Y').any (fun alt => alt.length == (digits (m.year / 100) ++ digits (m.year % 100)).length &&
      fits alt (digits (m.year / 100) ++ digits (m.year % 100))) = true := by
    rw [List.any_eq_true]
    exact ⟨_, List.mem_singleton_self _, fits_replicate hdays⟩
  have htext : m.date ++ c :: rest = (digits (m.year / 100) ++ digits (m.year % 100)) ++ '-' :: (digits m.month ++ '-' ::
      (digits m.day ++ c :: rest)) := by
    rw [Moment.date]
    simp only [List.append_assoc, List.cons_append]
  rw [htext]
  show matchAt (.field 'Y' (directive 'Y') :: .char (is '-') :: .field 'm' (directive 'm') :: .char (is '-') ::
    .field 'd' (directive 'd') :: items) _ = _
  rw [matchAt_number (by decide) (miss_char (by decide) _) (by exact List.cons_ne_nil _ _) hdays hfits hdash,
    matchAt_char rfl, matchAt_two (by decide) (miss_char (by decide) _) hmonth (reads_month m.month_valid) hdash,
    matchAt_char rfl, matchAt_two (by decide) hitems hday (reads_day ⟨m.day_valid.1, by have := m.day_valid; omega⟩) hc]
  cases matchAt items (c :: rest) with
  | none => rfl
  | some r => rfl

/-- The clock up to its seconds. -/
theorem matchAt_minutes (m : Moment) (items : Pattern) (rest : Text) :
    matchAt (.field 'H' (directive 'H') :: .char (is ':') :: .field 'M' (directive 'M') :: .char (is ':') :: items)
        (m.clock ++ rest) =
      (matchAt items (digits m.second ++ rest)).map fun r =>
        (('H', digits m.hour) :: ('M', digits m.minute) :: r.1, r.2) := by
  obtain ⟨-, -, hhour, hminute, -⟩ := m.bounds
  obtain ⟨hhours, hminutes, -⟩ := m.clock_valid
  have hcolon : isDigit ':' = false := by decide
  have htext : m.clock ++ rest = digits m.hour ++ ':' :: (digits m.minute ++ ':' :: (digits m.second ++ rest)) := by
    rw [Moment.clock]
    simp only [List.append_assoc, List.cons_append]
  rw [htext, matchAt_two (by decide) (miss_char (by decide) _) hhour (reads_hour hhours) hcolon, matchAt_char rfl,
    matchAt_two (by decide) (miss_char (by decide) _) hminute (reads_sixty hminutes).1 hcolon, matchAt_char rfl]
  cases matchAt items (digits m.second ++ rest) with
  | none => rfl
  | some r => rfl

theorem matchAt_clock (m : Moment) {items : Pattern} (hitems : ∀ d s, isDigit d = true → matchAt items (d :: s) = none)
    {c : Char} (hc : isDigit c = false) (rest : Text) :
    matchAt (clockPattern ++ items) (m.clock ++ c :: rest) =
      (matchAt items (c :: rest)).map fun r => (clockFields m ++ r.1, r.2) := by
  obtain ⟨-, -, -, -, hsecond⟩ := m.bounds
  have hseconds := (reads_sixty m.clock_valid.2.2).2
  show matchAt (.field 'H' (directive 'H') :: .char (is ':') :: .field 'M' (directive 'M') :: .char (is ':') ::
    .field 'S' (directive 'S') :: items) _ = _
  rw [matchAt_minutes, matchAt_two (by decide) hitems hsecond hseconds hc]
  cases matchAt items (c :: rest) with
  | none => rfl
  | some r => rfl

/-- A clock that is the end of the format leaves what is behind it. -/
theorem matchAt_clock_left (m : Moment) {c : Char} (hc : isDigit c = false) (rest : Text) {r : List (Char × Text) × Text}
    (h : matchAt clockPattern (m.clock ++ c :: rest) = some r) : r.2 ≠ [] := by
  obtain ⟨-, -, -, -, hsecond⟩ := m.bounds
  rw [clockPattern, matchAt_minutes, Option.map_eq_some_iff] at h
  obtain ⟨r, hr, rfl⟩ := h
  show r.2 ≠ []
  exact matchAt_left (@directive_within 'S' (by decide)) (List.cons_ne_nil _ _) (isDigit_digits hsecond) hc rest hr

/-- Digits, of a class that has them all. -/
theorem map_digits {p : Char → Bool} (hp : ∀ d < 10, p (Nat.digitChar d) = true) {ds : List Nat} (hds : ∀ d ∈ ds, d < 10) :
    ∀ c ∈ ds.map Nat.digitChar, p c = true := by
  intro c hc
  obtain ⟨d, hd, rfl⟩ := List.mem_map.mp hc
  exact hp d (hds d hd)

/-- The digits behind the point, of which the format has one to six. -/
theorem matchAt_fraction {ds : List Nat} (hds : ∀ d ∈ ds, d < 10) (hne : ds ≠ []) {items : Pattern}
    (hitems : ∀ d s, isDigit d = true → matchAt items (d :: s) = none) {c : Char} (hc : isDigit c = false) (rest : Text) :
    matchAt (fractionPattern ++ items) ('.' :: ds.map Nat.digitChar ++ c :: rest) =
      if ds.length ≤ 6 then
        (matchAt items (c :: rest)).map fun r => (('f', ds.map Nat.digitChar) :: r.1, r.2)
      else none := by
  have hfits : (directive 'f').any (fun alt => alt.length == (ds.map Nat.digitChar).length &&
      fits alt (ds.map Nat.digitChar)) = decide (ds.length ≤ 6) := by
    have hreplicate := fits_replicate (map_digits (p := range '0' '9') (by decide) hds)
    have hpos := List.length_pos_of_ne_nil hne
    rw [Bool.eq_iff_iff, List.any_eq_true, decide_eq_true_eq]
    constructor
    · rintro ⟨alt, halt, h⟩
      obtain ⟨n, hn, rfl⟩ := List.mem_map.mp halt
      rw [Bool.and_eq_true, beq_iff_eq, List.length_replicate, List.length_map] at h
      have hmax : ∀ n ∈ [6, 5, 4, 3, 2, 1], n ≤ 6 := by decide
      exact h.1 ▸ hmax n hn
    · intro hle
      rw [List.length_map] at hreplicate
      have hmem : ∀ n, 0 < n → n ≤ 6 → n ∈ [6, 5, 4, 3, 2, 1] := by
        intro n hn hn'
        interval_cases n
        all_goals decide
      refine ⟨_, List.mem_map.mpr ⟨ds.length, hmem _ hpos hle, rfl⟩, ?_⟩
      rw [hreplicate, Bool.and_true, beq_iff_eq, List.length_replicate, List.length_map]
  show matchAt (.char (is '.') :: .field 'f' (directive 'f') :: items) ('.' :: (ds.map Nat.digitChar ++ c :: rest)) = _
  rw [matchAt_char rfl, matchAt_field (directive_within (by decide)) hitems (by simpa using hne)
    (map_digits (by decide) hds) hc, hfits]
  simp only [decide_eq_true_eq]

theorem matchAt_fraction_left {ds : List Nat} (hds : ∀ d ∈ ds, d < 10) (hne : ds ≠ []) {c : Char} (hc : isDigit c = false)
    (rest : Text) {r : List (Char × Text) × Text}
    (h : matchAt fractionPattern ('.' :: (ds.map Nat.digitChar ++ c :: rest)) = some r) : r.2 ≠ [] := by
  rw [fractionPattern, matchAt_char rfl] at h
  exact matchAt_left (@directive_within 'f' (by decide)) (by simpa using hne) (map_digits (by decide) hds) hc rest h

/-- What may stand behind a numeric zone that is read. -/
def Ends (junk : Text) : Prop := ∀ c, junk.head? = some c → isDigit c = false ∧ c ≠ ':'

theorem zoneSeconds_miss {junk : Text} (hjunk : Ends junk) : ∀ alt ∈ zoneSeconds, fits alt junk = false := by
  have hseconds : ∀ alt : List (Char → Bool), fits (range '0' '5' :: alt) junk = false := by
    intro alt
    cases junk with
    | nil => rfl
    | cons c junk =>
      have hrange : range '0' '5' c = false := by
        by_contra h
        have hdigit := digits_range (by decide) (by decide) c (Bool.not_eq_false _ ▸ h)
        rw [(hjunk c rfl).1] at hdigit
        cases hdigit
      rw [fits, hrange]
      rfl
  have hcolon : ∀ alt : List (Char → Bool), fits (is ':' :: alt) junk = false := by
    intro alt
    cases junk with
    | nil => rfl
    | cons c junk =>
      rw [fits, is, beq_eq_false_iff_ne.mpr (hjunk c rfl).2]
      rfl
  intro alt halt
  rcases List.mem_append.mp halt with halt | halt
  · obtain ⟨seconds, -, rfl⟩ := List.mem_map.mp halt
    exact hcolon seconds
  · obtain ⟨fraction, -, rfl⟩ := List.mem_map.mp halt
    exact hseconds _

/-- Of a numeric zone, hours and minutes are taken, and no more. -/
theorem matchAt_zone {zone : Zone} (hvalid : zone.Valid) {junk : Text} (hjunk : Ends junk) :
    matchAt zonePattern (' ' :: (numericZone zone ++ junk)) = some ([('z', numericZone zone)], junk) := by
  obtain ⟨behind, hours, minutes, hhours, hminutes, hzone, -⟩ := zone_parts hvalid
  have hdigit : ∀ d < 10, isDigit (Nat.digitChar d) = true ∧ is ':' (Nat.digitChar d) = false := by decide
  have hfive : ∀ d < 6, range '0' '5' (Nat.digitChar d) = true := by decide
  have hsign : isSign (sign behind) = true := by
    cases behind <;> rfl
  have htext : numericZone zone ++ junk = sign behind :: Nat.digitChar (hours / 10) :: Nat.digitChar (hours % 10) ::
      Nat.digitChar (minutes / 10) :: Nat.digitChar (minutes % 10) :: junk := by
    rw [hzone]
    rfl
  have hbefore : ∀ alt ∈ ((zoneSeconds ++ [[]]).map fun s => [isSign, isDigit, isDigit, is ':', range '0' '5', isDigit] ++ s) ++
      (zoneSeconds.map fun s => [isSign, isDigit, isDigit, range '0' '5', isDigit] ++ s),
      fits alt (numericZone zone ++ junk) = false := by
    intro alt halt
    rw [htext]
    rcases List.mem_append.mp halt with halt | halt
    · obtain ⟨s, -, rfl⟩ := List.mem_map.mp halt
      simp only [List.cons_append, fits, (hdigit (minutes / 10) (by omega)).2, Bool.false_and, Bool.and_false]
    · obtain ⟨s, hs, rfl⟩ := List.mem_map.mp halt
      simp only [List.cons_append, List.nil_append, fits, zoneSeconds_miss hjunk s hs, Bool.and_false]
  have hplain : fits [isSign, isDigit, isDigit, range '0' '5', isDigit] (numericZone zone ++ junk) = true := by
    rw [htext]
    simp only [fits, hsign, (hdigit (hours / 10) (by omega)).1, (hdigit (hours % 10) (by omega)).1,
      hfive (minutes / 10) (by omega), (hdigit (minutes % 10) (by omega)).1, Bool.and_true]
  have hlen : (numericZone zone).length = 5 := by
    rw [hzone]
    rfl
  have htake : (numericZone zone ++ junk).take 5 = numericZone zone := List.take_left' hlen
  have hdrop : (numericZone zone ++ junk).drop 5 = junk := List.drop_left' hlen
  have hmatch : matchAt [.field 'z' (directive 'z')] (numericZone zone ++ junk) =
      some ([('z', (numericZone zone ++ junk).take 5)], (numericZone zone ++ junk).drop 5) := matchAt_first hbefore hplain
  rw [htake, hdrop, htext] at hmatch
  rw [htext, zonePattern, matchAt_space (sign_ne behind).2.2.1, hmatch]

theorem digitsValue_digits {n : Nat} (h : n < 100) : digitsValue (digits n) = n := by
  have hnumber := number_digits h
  rw [number?] at hnumber
  split at hnumber
  · exact Option.some_inj.mp hnumber
  · cases hnumber

theorem gmtoff_zone (m : Moment) : gmtoff (numericZone m.zone) = some (offsetMicros m) := by
  obtain ⟨behind, hours, minutes, hhours, hminutes, hzone, hahead⟩ := zone_parts m.zone_valid
  have hcolon : ∀ d < 10, some (Nat.digitChar d) ≠ some ':' := by decide
  have hno : sign behind :: digits hours ++ digits minutes ≠ ['Z'] := fun h =>
    absurd (congrArg List.length h) (by rw [List.length_append, List.length_cons]; exact Nat.succ_ne_succ_iff.mpr nofun)
  have hplain : (sign behind :: digits hours ++ digits minutes)[3]? ≠ some ':' := hcolon _ (by omega)
  have hhour : digitsValue (((sign behind :: digits hours ++ digits minutes).drop 1).take 2) = hours :=
    digitsValue_digits (by omega)
  have hminute : digitsValue (((sign behind :: digits hours ++ digits minutes).drop 3).take 2) = minutes :=
    digitsValue_digits (by omega)
  have hseconds : ((sign behind :: digits hours ++ digits minutes).drop 5).take 2 = [] := rfl
  have hfraction : (sign behind :: digits hours ++ digits minutes).drop 8 = [] := rfl
  have hempty : digitsValue [] = 0 ∧ digitsValue (ljust 6 '0' []) = 0 := by decide
  have hbehind : (sign behind :: digits hours ++ digits minutes).head? = some '-' ↔ behind = true := by
    rw [← (sign_ne behind).2.2.2]
    exact Option.some_inj
  rw [hzone, gmtoff, if_neg hno, if_neg hplain, Option.bind_some, hhour, hminute, hseconds, hfraction]
  dsimp only
  rw [if_pos List.all_nil, hempty.1, hempty.2, offsetMicros, hahead, Option.some_inj]
  simp only [hbehind]
  cases behind with
  | false =>
    rw [if_neg (by decide), if_neg (by decide)]
    omega
  | true =>
    rw [if_pos rfl, if_pos rfl]
    omega

/-! ## What strptime reads -/

theorem strptime_left {s : Text} {format : String}
    (h : ∀ r, matchAt (pattern false format.toList) s = some r → r.2 ≠ []) : strptime s format = .valueError := by
  rw [strptime]
  cases hmatch : matchAt (pattern false format.toList) s with
  | none => rfl
  | some r =>
    obtain ⟨fields, left⟩ := r
    cases left with
    | nil => exact absurd rfl (h _ hmatch)
    | cons c left => rfl

/-- A time of Go's with its zone's name, or what is left of it, replaced. -/
def goText (m : Moment) (junk : Text) : Text :=
  m.date ++ ' ' :: (m.clock ++ m.fractionText ++ ' ' :: (numericZone m.zone ++ junk))

/-- The date in front of a clock. -/
theorem matchAt_dated (m : Moment) (items : Pattern) (rest : Text) :
    matchAt (datePattern ++ .spaces :: items) (m.date ++ ' ' :: (m.clock ++ rest)) =
      (matchAt items (m.clock ++ rest)).map fun r => (dateFields m ++ r.1, r.2) := by
  have hhour : m.hour / 10 < 10 := by
    have hbounds := m.bounds
    omega
  have htext : m.clock ++ rest = Nat.digitChar (m.hour / 10) :: (m.clock ++ rest).tail := rfl
  rw [matchAt_date m (miss_spaces _) (by decide), htext, matchAt_space (digit_facts hhour).1]

theorem matchAt_miss_date (m : Moment) (items : Pattern) (rest : Text) :
    matchAt (datePattern ++ .spaces :: items) (m.date ++ 'T' :: rest) = none := by
  rw [matchAt_date m (miss_spaces _) (by decide), matchAt_miss_space (by decide)]
  rfl

theorem miss_fraction (items : Pattern) (d : Char) (s : Text) (h : isDigit d = true) :
    matchAt (fractionPattern ++ items) (d :: s) = none := miss_char (by decide) _ d s h

theorem miss_zone (d : Char) (s : Text) (h : isDigit d = true) : matchAt zonePattern (d :: s) = none :=
  miss_spaces _ d s h

theorem fraction_blank (items : Pattern) (s : Text) : matchAt (fractionPattern ++ items) (' ' :: s) = none :=
  matchAt_miss_char (by decide) _ s

/-- The first format is of times with one to six digits behind the point. -/
theorem matchAt_first_format (m : Moment) {junk : Text} (hjunk : Ends junk) :
    matchAt (datePattern ++ .spaces :: (clockPattern ++ (fractionPattern ++ zonePattern))) (goText m junk) =
      if m.fraction ≠ [] ∧ m.fraction.length ≤ 6 then
        some (dateFields m ++ (clockFields m ++ [('f', m.fraction.map Nat.digitChar), ('z', numericZone m.zone)]), junk)
      else none := by
  rw [goText, List.append_assoc, matchAt_dated, Moment.fractionText]
  by_cases hnil : m.fraction = []
  · rw [if_pos hnil, if_neg fun h => h.1 hnil, List.nil_append,
      matchAt_clock m (miss_fraction zonePattern) (by decide), fraction_blank]
    rfl
  · rw [if_neg hnil, List.cons_append, matchAt_clock m (miss_fraction zonePattern) (by decide), ← List.cons_append,
      matchAt_fraction m.fraction_digits hnil miss_zone (by decide), matchAt_zone m.zone_valid hjunk]
    by_cases hlen : m.fraction.length ≤ 6
    · rw [if_pos hlen, if_pos ⟨hnil, hlen⟩]
      rfl
    · rw [if_neg hlen, if_neg fun h => hlen h.2]
      rfl

/-- The second format is of times with none. -/
theorem matchAt_second_format (m : Moment) {junk : Text} (hjunk : Ends junk) :
    matchAt (datePattern ++ .spaces :: (clockPattern ++ zonePattern)) (goText m junk) =
      if m.fraction = [] then some (dateFields m ++ (clockFields m ++ [('z', numericZone m.zone)]), junk) else none := by
  rw [goText, List.append_assoc, matchAt_dated, Moment.fractionText]
  by_cases hnil : m.fraction = []
  · rw [if_pos hnil, if_pos hnil, List.nil_append, matchAt_clock m miss_zone (by decide),
      matchAt_zone m.zone_valid hjunk]
    rfl
  · rw [if_neg hnil, if_neg hnil, List.cons_append, matchAt_clock m miss_zone (by decide), zonePattern,
      matchAt_miss_space (by decide)]
    rfl

/-- The other two have no zone, which is left. -/
theorem matchAt_third_format (m : Moment) (junk : Text) {r : List (Char × Text) × Text}
    (h : matchAt (datePattern ++ .spaces :: (clockPattern ++ fractionPattern)) (goText m junk) = some r) : r.2 ≠ [] := by
  rw [goText, List.append_assoc, matchAt_dated, Moment.fractionText, Option.map_eq_some_iff] at h
  obtain ⟨r, hr, rfl⟩ := h
  show r.2 ≠ []
  by_cases hnil : m.fraction = []
  · rw [if_pos hnil, List.nil_append, ← List.append_nil fractionPattern, matchAt_clock m (miss_fraction []) (by decide),
      fraction_blank] at hr
    cases hr
  · rw [if_neg hnil, List.cons_append, ← List.append_nil fractionPattern,
      matchAt_clock m (miss_fraction []) (by decide), List.append_nil, Option.map_eq_some_iff] at hr
    obtain ⟨r, hr, rfl⟩ := hr
    show r.2 ≠ []
    exact matchAt_fraction_left (c := ' ') m.fraction_digits hnil (by decide) _ hr

theorem matchAt_fourth_format (m : Moment) (junk : Text) {r : List (Char × Text) × Text}
    (h : matchAt (datePattern ++ .spaces :: clockPattern) (goText m junk) = some r) : r.2 ≠ [] := by
  rw [goText, List.append_assoc, matchAt_dated, Moment.fractionText, Option.map_eq_some_iff] at h
  obtain ⟨r, hr, rfl⟩ := h
  show r.2 ≠ []
  by_cases hnil : m.fraction = []
  · rw [if_pos hnil, List.nil_append] at hr
    exact matchAt_clock_left (c := ' ') m (by decide) _ hr
  · rw [if_neg hnil, List.cons_append] at hr
    exact matchAt_clock_left (c := '.') m (by decide) _ hr

theorem digitsValue_year {n : Nat} (h : n ≤ 9999) : digitsValue (digits (n / 100) ++ digits (n % 100)) = n := by
  have hnumber := number_year h
  rw [number?] at hnumber
  split at hnumber
  · exact Option.some_inj.mp hnumber
  · cases hnumber

/-- The fields of a whole match, as a time. -/
theorem strptime_whole {m : Moment} {s : Text} {format : String} {tail : List (Char × Text)}
    (h : matchAt (pattern false format.toList) s = some (dateFields m ++ (clockFields m ++ tail), []))
    (hzone : tail.lookup 'z' = some (numericZone m.zone))
    (hfraction : (tail.lookup 'f').getD [] = m.fraction.map Nat.digitChar) : strptime s format = m.held := by
  obtain ⟨hmonth, hday, hhour, hminute, hsecond⟩ := m.bounds
  have hpadded : digitsValue (ljust 6 '0' (m.fraction.map Nat.digitChar)) = value (ljust 6 0 m.fraction) := by
    rw [show '0' = Nat.digitChar 0 from rfl, ← ljust_map]
    refine digitsValue_map fun d hd => ?_
    rcases mem_ljust hd with hd | rfl
    · exact m.fraction_digits d hd
    · decide
  have hoffset : (dateFields m ++ (clockFields m ++ tail)).lookup 'z' = some (numericZone m.zone) := hzone
  have hmicros : ((dateFields m ++ (clockFields m ++ tail)).lookup 'f').getD [] = m.fraction.map Nat.digitChar := hfraction
  rw [strptime, h]
  dsimp only
  rw [hoffset, hmicros]
  dsimp only
  rw [gmtoff_zone, hpadded]
  show datetime (digitsValue (digits (m.year / 100) ++ digits (m.year % 100))) (digitsValue (digits m.month))
    (digitsValue (digits m.day)) (digitsValue (digits m.hour)) (digitsValue (digits m.minute))
    (digitsValue (digits m.second)) _ _ = _
  rw [digitsValue_year m.year_le, digitsValue_digits hmonth, digitsValue_digits hday, digitsValue_digits hhour,
    digitsValue_digits hminute, digitsValue_digits hsecond]
  exact datetime_held m rfl

theorem readFormats_cons (lib : Library) (text : Text) (format : String) (formats : List String) :
    readFormats lib text (format :: formats) =
      if lib.strptime text format = .valueError then readFormats lib text formats else lib.strptime text format := by
  rw [readFormats]
  cases lib.strptime text format with
  | valueError => rfl
  | raised => rfl
  | instant n => rfl

theorem readFormats_none {lib : Library} {text : Text} {formats : List String}
    (h : ∀ format ∈ formats, lib.strptime text format = .valueError) : readFormats lib text formats = .valueError := by
  induction formats with
  | nil => rfl
  | cons format formats ih =>
    rw [readFormats_cons, if_pos (h format List.mem_cons_self)]
    exact ih fun other hother => h other (List.mem_cons_of_mem _ hother)

theorem strptime_first_format (m : Moment) {junk : Text} (hjunk : Ends junk) :
    strptime (goText m junk) "%Y-%m-%d %H:%M:%S.%f %z" =
      if (m.fraction ≠ [] ∧ m.fraction.length ≤ 6) ∧ junk = [] then m.held else .valueError := by
  have hmatch := matchAt_first_format m hjunk
  by_cases h : m.fraction ≠ [] ∧ m.fraction.length ≤ 6
  · rw [if_pos h] at hmatch
    by_cases hnil : junk = []
    · subst hnil
      rw [if_pos ⟨h, rfl⟩]
      exact strptime_whole hmatch rfl rfl
    · rw [if_neg fun h => hnil h.2]
      refine strptime_left fun r hr => ?_
      cases hmatch.symm.trans hr
      exact hnil
  · rw [if_neg h] at hmatch
    rw [if_neg fun hboth => h hboth.1]
    exact strptime_left fun r hr => nomatch hmatch.symm.trans hr

theorem strptime_second_format (m : Moment) {junk : Text} (hjunk : Ends junk) :
    strptime (goText m junk) "%Y-%m-%d %H:%M:%S %z" =
      if m.fraction = [] ∧ junk = [] then m.held else .valueError := by
  have hmatch := matchAt_second_format m hjunk
  by_cases h : m.fraction = []
  · rw [if_pos h] at hmatch
    by_cases hnil : junk = []
    · subst hnil
      rw [if_pos ⟨h, rfl⟩]
      refine strptime_whole hmatch rfl ?_
      rw [h]
      rfl
    · rw [if_neg fun h => hnil h.2]
      refine strptime_left fun r hr => ?_
      cases hmatch.symm.trans hr
      exact hnil
  · rw [if_neg h] at hmatch
    rw [if_neg fun hboth => h hboth.1]
    exact strptime_left fun r hr => nomatch hmatch.symm.trans hr

/-- The formats, on a time of Go's: what is behind the zone, or a seventh digit, is not read. -/
theorem readFormats_goText (other : Text → TimeRead) (lower : String → String) (m : Moment) {junk : Text}
    (hjunk : Ends junk) :
    readFormats (python other lower) (goText m junk) timeFormats =
      if junk = [] ∧ m.fraction.length ≤ 6 then m.held else .valueError := by
  have hlast : ∀ format ∈ ["%Y-%m-%d %H:%M:%S.%f", "%Y-%m-%d %H:%M:%S"],
      strptime (goText m junk) format = .valueError := by
    intro format hformat
    simp only [List.mem_cons, List.not_mem_nil, or_false] at hformat
    rcases hformat with rfl | rfl
    · exact strptime_left fun r hr => matchAt_third_format m junk hr
    · exact strptime_left fun r hr => matchAt_fourth_format m junk hr
  have hrest : readFormats (python other lower) (goText m junk) ["%Y-%m-%d %H:%M:%S.%f", "%Y-%m-%d %H:%M:%S"] =
      .valueError := readFormats_none hlast
  have hheld : ∀ time : TimeRead, (if time = .valueError then TimeRead.valueError else time) = time := by
    intro time
    split
    · rename_i h
      exact h.symm
    · rfl
  rw [timeFormats, readFormats_cons, readFormats_cons, hrest]
  show (if strptime _ _ = _ then (if strptime _ _ = _ then _ else strptime _ _) else strptime _ _) = _
  have hfirst := strptime_first_format m hjunk
  have hsecond := strptime_second_format m hjunk
  rw [hheld]
  by_cases hboth : junk = [] ∧ m.fraction.length ≤ 6
  · rw [if_pos hboth]
    by_cases hfraction : m.fraction = []
    · rw [if_neg fun h => h.1.1 hfraction] at hfirst
      rw [if_pos ⟨hfraction, hboth.1⟩] at hsecond
      rw [hfirst, if_pos rfl, hsecond]
    · rw [if_pos ⟨⟨hfraction, hboth.2⟩, hboth.1⟩] at hfirst
      rw [if_neg fun h => hfraction h.1] at hsecond
      rw [hsecond, hheld, hfirst]
  · have hno : ¬ (m.fraction = [] ∧ junk = []) := by
      rintro ⟨hfraction, hnil⟩
      exact hboth ⟨hnil, by rw [hfraction]; exact Nat.zero_le _⟩
    rw [if_neg fun h => hboth ⟨h.2, h.1.2⟩] at hfirst
    rw [if_neg hno] at hsecond
    rw [hfirst, if_pos rfl, hsecond, if_neg hboth]

/-- An RFC3339 time has none of the formats. -/
theorem readFormats_rfc3339 (other : Text → TimeRead) (lower : String → String) (m : Moment) (rest : Text) :
    readFormats (python other lower) (m.date ++ 'T' :: rest) timeFormats = .valueError := by
  have hnone : ∀ items, ∀ r, matchAt (datePattern ++ .spaces :: items) (m.date ++ 'T' :: rest) = some r → r.2 ≠ [] := by
    intro items r hr
    rw [matchAt_miss_date] at hr
    cases hr
  refine readFormats_none fun format hformat => ?_
  refine strptime_left ?_
  simp only [timeFormats, List.mem_cons, List.not_mem_nil, or_false] at hformat
  rcases hformat with rfl | rfl | rfl | rfl
  all_goals exact hnone _

end Errand.Gateway.TimeFormats

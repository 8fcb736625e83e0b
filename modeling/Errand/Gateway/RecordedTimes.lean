import Errand.Gateway.IsoTimes
import Errand.Gateway.TimeFormats

/-
  Errand.Gateway.RecordedTimes — which of the times of fingerprints and of `rclone lsjson`
  `_parse_time` of workspace-gateway/cache_reconcile.py reads, and when two agree.

  Before its formats it takes " UTC" out of the text, and " m=" for a blank, and then what is in
  front of a " m=": of the monotonic clock the reading stays, and of a zone's name what is not
  "UTC".

  Proved:
  - `replace_goText`: a replacement of what begins with a blank and a letter leaves date, clock
    and numeric zone.
  - `parseTime_rfc3339`: every RFC3339 time is read as its instant, cut to microseconds, if
    `datetime` can hold it.
  - `parseTime_goString`: of the other times only those of the zone name UTC with at most six
    digits behind the point and no monotonic clock.
  - `times_agree_iff`: what is read, and when two renderings of one instant agree.
  - `nanoseconds_are_not_read`.
-/

namespace Errand.Gateway.RecordedTimes

open Errand.Lib Errand.Lib.PyStr Errand.Lib.Alternatives Errand.Gateway.Datetime Errand.Gateway.Moments
open Errand.Gateway.IsoTimes Errand.Gateway.TimeFormats
open Errand.Server.LogStamps (Zone digits)

/-! ## The cleaned text -/

/-- The text that the formats get, but for its strip. -/
def cleaned (text : Text) : Text :=
  let replaced := replace " m=".toList " ".toList (replace " UTC".toList [] text)
  ((Search.splitFirst " m=".toList replaced).map (·.1)).getD replaced

theorem parseTime_eq (lib : Library) {text : Text} (hne : text ≠ []) (hstrip : strip text = text) :
    parseTime lib (some text) =
      if lib.fromIsoFormat (replace "Z".toList "+00:00".toList text) = .valueError then
        readFormats lib (strip (cleaned text)) timeFormats
      else lib.fromIsoFormat (replace "Z".toList "+00:00".toList text) := by
  obtain ⟨c, rest, rfl⟩ := List.exists_cons_of_ne_nil hne
  rw [parseTime, Option.map_some, hstrip]
  dsimp only
  cases lib.fromIsoFormat (replace "Z".toList "+00:00".toList (c :: rest)) with
  | valueError => rfl
  | raised => rfl
  | instant n => rfl

/-- Nothing is cut off where no " m=" is left. -/
theorem cleaned_eq {text utc replaced : Text} (hutc : replace " UTC".toList [] text = utc)
    (hm : replace " m=".toList " ".toList utc = replaced) (hno : ¬ " m=".toList <:+: replaced) : cleaned text = replaced := by
  rw [cleaned, hutc, hm, Search.splitFirst_none_iff.mpr hno]
  rfl

/-! ## Strip -/

/-- A text that neither begins nor ends with a blank is its own strip. -/
theorem strip_ends {c : Char} {a b : Text} (hc : isSpace c = false) (hne : b ≠ []) (hb : ∀ d ∈ b, isSpace d = false) :
    strip (c :: a ++ b) = c :: a ++ b := by
  have hlast : ∀ d, (c :: a ++ b).getLast? = some d → isSpace d = false := by
    intro d hd
    rw [List.getLast?_append_of_ne_nil _ hne] at hd
    exact hb d (List.mem_of_getLast? hd)
  have hstrip := @strip_append (c :: a ++ b) [] (fun d hd => by cases hd; exact hc) hlast nofun
  rwa [List.append_nil] at hstrip

theorem date_cons (m : Moment) : ∃ d < 10, ∃ rest, m.date = Nat.digitChar d :: rest := by
  have hyear := m.year_le
  exact ⟨m.year / 100 / 10, by omega, _, rfl⟩

theorem strip_date (m : Moment) (a : Text) {b : Text} (hne : b ≠ []) (hb : ∀ d ∈ b, isSpace d = false) :
    strip (m.date ++ a ++ b) = m.date ++ a ++ b := by
  obtain ⟨d, hd, rest, hdate⟩ := date_cons m
  rw [hdate, List.cons_append]
  exact strip_ends (digit_facts hd).1 hne hb

/-! ## RFC3339 -/

theorem zone_text (zone : Zone) : zone.text ≠ [] ∧
    (zone.Valid → (∀ c ∈ zone.text, isSpace c = false ∧ c ≠ ' ') ∧ replace "Z".toList "+00:00".toList zone.text = isoZone zone) := by
  cases zone with
  | utc => exact ⟨by decide, fun _ => ⟨List.forall_mem_singleton.mpr (by decide), by decide⟩⟩
  | offset behind hours minutes =>
    refine ⟨nofun, fun hvalid => ?_⟩
    obtain ⟨hhours, hminutes⟩ : hours < 24 ∧ minutes < 60 := hvalid
    have hmem : ∀ c ∈ (Zone.offset behind hours minutes).text, isSpace c = false ∧ c ≠ ' ' ∧ c ≠ 'Z' := by
      intro c hc
      have hdigits : ∀ n < 100, c ∈ digits n → isSpace c = false ∧ c ≠ ' ' ∧ c ≠ 'Z' := by
        intro n hn hc
        obtain ⟨d, hd, rfl⟩ := mem_digits hn hc
        exact ⟨(digit_plain hd).1, (digit_plain hd).2.1, (digit_facts hd).2.2.2.2.2.1⟩
      rcases List.mem_append.mp hc with hc | hc
      · rcases List.mem_cons.mp hc with rfl | hc
        · cases behind
          all_goals decide
        · exact hdigits hours (by omega) hc
      · rcases List.mem_cons.mp hc with rfl | hc
        · decide
        · exact hdigits minutes (by omega) hc
    refine ⟨fun c hc => ⟨(hmem c hc).1, (hmem c hc).2.1⟩, ?_⟩
    have hskip := replace_skip (p := 'Z') (fun c hc => (hmem c hc).2.2) [] "+00:00".toList []
    rw [List.append_nil] at hskip
    exact hskip.trans (List.append_nil _)

/-- Nothing is replaced where the pattern's first character is not. -/
theorem replace_none {p : Char} {s : Text} (h : ∀ c ∈ s, c ≠ p) (pat rep : Text) : replace (p :: pat) rep s = s := by
  have hskip := replace_skip h pat rep []
  rw [List.append_nil] at hskip
  exact hskip.trans (List.append_nil _)

/-- An RFC3339 time, as `fromisoformat` gets it. -/
theorem replace_rfc3339 (m : Moment) :
    replace "Z".toList "+00:00".toList (m.date ++ 'T' :: (m.clock ++ m.fractionText ++ m.zone.text)) =
      m.date ++ 'T' :: (m.clock ++ m.fractionText ++ isoZone m.zone) := by
  have hdigits : ∀ d < 10, Nat.digitChar d ≠ 'Z' := by decide
  have hfront : ∀ c ∈ m.date ++ 'T' :: (m.clock ++ m.fractionText), c ≠ 'Z' := by
    intro c hc
    rcases List.mem_append.mp hc with hc | hc
    · exact m.date_ne (by decide) hdigits c hc
    · rcases List.mem_cons.mp hc with rfl | hc
      · decide
      · exact m.clock_ne (by decide) (by decide) hdigits c hc
  have hsplit : ∀ zone : Text, m.date ++ 'T' :: (m.clock ++ m.fractionText ++ zone) =
      (m.date ++ 'T' :: (m.clock ++ m.fractionText)) ++ zone := by
    intro zone
    rw [List.append_assoc, List.append_assoc, List.cons_append, List.append_assoc]
  have hzone : replace ['Z'] "+00:00".toList m.zone.text = isoZone m.zone := ((zone_text m.zone).2 m.zone_valid).2
  have hskip := replace_skip hfront [] "+00:00".toList m.zone.text
  rw [hzone, ← hsplit, ← hsplit] at hskip
  exact hskip

/-- Every RFC3339 time is read as its moment. -/
theorem parseTime_rfc3339 (other : Text → TimeRead) (lower : String → String) (m : Moment) :
    parseTime (python other lower) (some (Rendering.rfc3339 m).text) = m.held := by
  obtain ⟨hne, hzone⟩ := zone_text m.zone
  have hplain := (hzone m.zone_valid).1
  have htext : (Rendering.rfc3339 m).text = m.date ++ 'T' :: (m.clock ++ m.fractionText ++ m.zone.text) := by
    rw [Rendering.text]
    simp only [List.append_assoc, List.cons_append]
  have hstrip : strip (m.date ++ 'T' :: (m.clock ++ m.fractionText ++ m.zone.text)) =
      m.date ++ 'T' :: (m.clock ++ m.fractionText ++ m.zone.text) := by
    have h := strip_date m ('T' :: (m.clock ++ m.fractionText)) hne fun c hc => (hplain c hc).1
    rwa [List.append_assoc, List.cons_append] at h
  have hblank : ∀ c ∈ m.date ++ 'T' :: (m.clock ++ m.fractionText ++ m.zone.text), c ≠ ' ' := by
    have hdigits : ∀ d < 10, Nat.digitChar d ≠ ' ' := by decide
    intro c hc
    rcases List.mem_append.mp hc with hc | hc
    · exact m.date_ne (by decide) hdigits c hc
    · rcases List.mem_cons.mp hc with rfl | hc
      · decide
      · rcases List.mem_append.mp hc with hc | hc
        · exact m.clock_ne (by decide) (by decide) hdigits c hc
        · exact (hplain c hc).2
  have hno : ¬ " m=".toList <:+: m.date ++ 'T' :: (m.clock ++ m.fractionText ++ m.zone.text) := fun hfound =>
    hblank ' ' (hfound.subset (by decide)) rfl
  have hcleaned : cleaned (m.date ++ 'T' :: (m.clock ++ m.fractionText ++ m.zone.text)) =
      m.date ++ 'T' :: (m.clock ++ m.fractionText ++ m.zone.text) :=
    cleaned_eq (replace_none hblank "UTC".toList []) (replace_none hblank "m=".toList " ".toList) hno
  have hiso : (python other lower).fromIsoFormat (replace "Z".toList "+00:00".toList
      (m.date ++ 'T' :: (m.clock ++ m.fractionText ++ m.zone.text))) = m.held := by
    rw [replace_rfc3339]
    exact fromIsoFormat_rfc3339 other m
  rw [htext, parseTime_eq _ (List.append_ne_nil_of_right_ne_nil _ (List.cons_ne_nil _ _)) hstrip, hcleaned, hstrip, hiso,
    readFormats_rfc3339]
  split
  · rename_i hnone
    exact hnone.symm
  · rfl

/-! ## Go's times -/

/-- A pattern of a blank and what no time of day or numeric zone begins with. -/
theorem replace_blank {p : Char} {c : Char} (h : c ≠ p) (pat rep s : Text) :
    replace (' ' :: p :: pat) rep (' ' :: c :: s) = ' ' :: replace (' ' :: p :: pat) rep (c :: s) := by
  refine replace_step ?_ rep
  rw [List.isPrefixOf_cons_cons, List.isPrefixOf_cons_cons, beq_eq_false_iff_ne.mpr h.symm, Bool.false_and, Bool.and_false]

/-- The replacements leave date, clock and numeric zone. -/
theorem replace_goText {p : Char} (hdigit : ∀ d < 10, Nat.digitChar d ≠ p) (hsign : ∀ behind, sign behind ≠ p)
    (pat rep : Text) (m : Moment) (rest : Text) :
    replace (' ' :: p :: pat) rep (goText m rest) = goText m (replace (' ' :: p :: pat) rep rest) := by
  have hblank : ∀ d < 10, Nat.digitChar d ≠ ' ' := by decide
  have hhour : m.hour / 10 < 10 := by
    have hbounds := m.bounds
    omega
  obtain ⟨behind, hours, minutes, hhours, hminutes, hzone, -⟩ := zone_parts m.zone_valid
  have hzoneNe : ∀ c ∈ numericZone m.zone, c ≠ ' ' := by
    intro c hc
    rcases mem_numericZone m.zone_valid hc with rfl | rfl | ⟨d, hd, rfl⟩
    · decide
    · decide
    · exact hblank d hd
  have hclock : ∀ s, replace (' ' :: p :: pat) rep (' ' :: (m.clock ++ m.fractionText ++ s)) =
      ' ' :: replace (' ' :: p :: pat) rep (m.clock ++ m.fractionText ++ s) := by
    intro s
    have hcons : m.clock ++ m.fractionText ++ s = Nat.digitChar (m.hour / 10) :: (m.clock ++ m.fractionText ++ s).tail := rfl
    rw [hcons, replace_blank (hdigit _ hhour)]
  have hzoneBlank : replace (' ' :: p :: pat) rep (' ' :: (numericZone m.zone ++ rest)) =
      ' ' :: replace (' ' :: p :: pat) rep (numericZone m.zone ++ rest) := by
    rw [hzone, List.cons_append, List.cons_append, replace_blank (hsign behind)]
  rw [goText, replace_skip (m.date_ne (by decide) hblank), hclock,
    replace_skip (m.clock_ne (by decide) (by decide) hblank), hzoneBlank, replace_skip hzoneNe, goText]

/-- What is left of " name". -/
def leftName (name : ZoneName) : Text :=
  if "UTC".toList <+: name.text then name.text.drop 3 else ' ' :: name.text

/-- What is left of " m=±value". -/
def leftReading : Option Monotonic → Text
  | none => []
  | some m => ' ' :: m.reading

theorem goString_text (m : Moment) (name : ZoneName) (monotonic : Option Monotonic) :
    (Rendering.goString m name monotonic).text = goText m (' ' :: (name.text ++ Monotonic.text monotonic)) := by
  rw [Rendering.text, goText]
  simp only [List.append_assoc, List.cons_append]

/-- Behind a name there is nothing or a blank. -/
theorem prefix_name {pat : Text} (hpat : ' ' ∉ pat) (name : ZoneName) (monotonic : Option Monotonic)
    (h : pat <+: name.text ++ Monotonic.text monotonic) : pat <+: name.text := by
  rcases List.prefix_or_prefix_of_prefix h (List.prefix_append name.text _) with h' | ⟨rest, rfl⟩
  · exact h'
  · rw [List.prefix_append_right_inj] at h
    cases rest with
    | nil => exact ⟨[], by rw [List.append_nil, List.append_nil]⟩
    | cons c rest =>
      cases monotonic with
      | none => exact absurd (List.prefix_nil.mp h) (List.cons_ne_nil _ _)
      | some m =>
        have hc : c = ' ' := (List.cons_prefix_cons.mp h).1
        exact absurd (List.mem_append_right _ (hc ▸ List.mem_cons_self)) hpat

/-- The reading of the clock stays, whatever is replaced in front of it. -/
theorem reading_stays (monotonic : Option Monotonic) :
    replace " UTC".toList [] (Monotonic.text monotonic) = Monotonic.text monotonic ∧
      replace " m=".toList " ".toList (Monotonic.text monotonic) = leftReading monotonic := by
  cases monotonic with
  | none => exact ⟨rfl, rfl⟩
  | some m =>
    have hblank : ∀ c ∈ m.reading, c ≠ ' ' := fun c hc => (m.reading_plain.2 c hc).2.1
    have htext : Monotonic.text (some m) = ' ' :: 'm' :: '=' :: m.reading := rfl
    have hrest : ∀ c ∈ 'm' :: '=' :: m.reading, c ≠ ' ' := by
      rintro c (_ | ⟨_, _ | ⟨_, hc⟩⟩)
      · decide
      · decide
      · exact hblank c hc
    constructor
    · have hstep : replace (' ' :: 'U' :: "TC".toList) [] (' ' :: 'm' :: '=' :: m.reading) =
          ' ' :: replace (' ' :: 'U' :: "TC".toList) [] ('m' :: '=' :: m.reading) := replace_blank (by decide) _ _ _
      rw [replace_none hrest] at hstep
      rw [htext]
      exact hstep
    · have hhit : replace " m=".toList " ".toList (" m=".toList ++ m.reading) =
          " ".toList ++ replace " m=".toList " ".toList m.reading := replace_hit (by decide) _ _
      have hreading : replace " m=".toList " ".toList m.reading = m.reading := replace_none hblank "m=".toList _
      rw [hreading] at hhit
      exact hhit

theorem replace_utc (name : ZoneName) (monotonic : Option Monotonic) :
    replace " UTC".toList [] (' ' :: (name.text ++ Monotonic.text monotonic)) =
      leftName name ++ Monotonic.text monotonic := by
  have hblank : ∀ c ∈ name.text, c ≠ ' ' := fun c hc => (name.plain.2 c hc).2.1
  rw [leftName]
  by_cases h : "UTC".toList <+: name.text
  · obtain ⟨r, hr⟩ := h
    have hdrop : name.text.drop 3 = r := by
      rw [← hr]
      rfl
    have hhit : replace " UTC".toList [] (" UTC".toList ++ (r ++ Monotonic.text monotonic)) =
        [] ++ replace " UTC".toList [] (r ++ Monotonic.text monotonic) := replace_hit (by decide) _ _
    have hskip : replace " UTC".toList [] (r ++ Monotonic.text monotonic) =
        r ++ replace " UTC".toList [] (Monotonic.text monotonic) :=
      replace_skip (fun c hc => hblank c (hr ▸ List.mem_append_right _ hc)) "UTC".toList _ _
    rw [if_pos ⟨r, hr⟩, hdrop, ← hr]
    rw [hskip, (reading_stays monotonic).1, List.nil_append] at hhit
    exact hhit
  · have hstep : " UTC".toList.isPrefixOf (' ' :: (name.text ++ Monotonic.text monotonic)) = false := by
      rw [← Bool.not_eq_true, List.isPrefixOf_iff_prefix]
      intro hprefix
      exact h (prefix_name (by decide) name monotonic (List.cons_prefix_cons.mp hprefix).2)
    have hskip : replace " UTC".toList [] (name.text ++ Monotonic.text monotonic) =
        name.text ++ replace " UTC".toList [] (Monotonic.text monotonic) := replace_skip hblank "UTC".toList _ _
    rw [if_neg h, replace_step hstep, hskip, (reading_stays monotonic).1]
    rfl

theorem replace_monotonic (name : ZoneName) (monotonic : Option Monotonic) :
    replace " m=".toList " ".toList (leftName name ++ Monotonic.text monotonic) =
      leftName name ++ leftReading monotonic := by
  have hblank : ∀ c ∈ name.text, c ≠ ' ' := fun c hc => (name.plain.2 c hc).2.1
  have hskip : ∀ s : Text, (∀ c ∈ s, c ≠ ' ') → replace " m=".toList " ".toList (s ++ Monotonic.text monotonic) =
      s ++ replace " m=".toList " ".toList (Monotonic.text monotonic) := fun s hs => replace_skip hs "m=".toList _ _
  rw [leftName]
  split
  · rw [hskip _ fun c hc => hblank c (List.mem_of_mem_drop hc), (reading_stays monotonic).2]
  · have hstep : " m=".toList.isPrefixOf (' ' :: (name.text ++ Monotonic.text monotonic)) = false := by
      rw [← Bool.not_eq_true, List.isPrefixOf_iff_prefix]
      intro hprefix
      have hname := prefix_name (by decide) name monotonic (List.cons_prefix_cons.mp hprefix).2
      exact (name.plain.2 '=' (hname.subset (by decide))).2.2 rfl
    rw [List.cons_append, replace_step hstep, hskip _ hblank, (reading_stays monotonic).2]
    rfl

/-- Behind the numeric zone there is nothing where the zone is UTC and there is no reading. -/
theorem left_nil_iff (name : ZoneName) (monotonic : Option Monotonic) :
    leftName name ++ leftReading monotonic = [] ↔ name.text = "UTC".toList ∧ monotonic = none := by
  rw [List.append_eq_nil_iff]
  refine and_congr ?_ ?_
  · rw [leftName]
    split
    · rename_i h
      obtain ⟨r, hr⟩ := h
      rw [← hr]
      constructor
      · intro hnil
        have hr' : r = [] := hnil
        rw [hr', List.append_nil]
      · intro htext
        rw [htext]
        rfl
    · rename_i h
      exact iff_of_false (List.cons_ne_nil _ _) fun htext => h (htext ▸ List.prefix_rfl)
  · cases monotonic with
    | none => exact iff_of_true rfl rfl
    | some m => exact iff_of_false (List.cons_ne_nil _ _) nofun

theorem leftName_mem {name : ZoneName} {c : Char} (h : c ∈ leftName name) : c = ' ' ∨ Plain c := by
  rw [leftName] at h
  split at h
  · exact .inr (name.plain.2 c (List.mem_of_mem_drop h))
  · rcases List.mem_cons.mp h with rfl | h
    · exact .inl rfl
    · exact .inr (name.plain.2 c h)

/-- What is left does not go on with the numeric zone. -/
theorem left_ends (name : ZoneName) (monotonic : Option Monotonic) : Ends (leftName name ++ leftReading monotonic) := by
  have hblank : isDigit ' ' = false ∧ ' ' ≠ ':' := by decide
  intro c hc
  rw [leftName] at hc
  split at hc
  · rename_i h
    obtain ⟨r, hr⟩ := h
    rw [← hr] at hc
    change (r ++ leftReading monotonic).head? = some c at hc
    cases r with
    | nil =>
      cases monotonic with
      | none => cases hc
      | some m =>
        cases hc
        exact hblank
    | cons d r =>
      cases hc
      have hname : name.text = 'U' :: 'T' :: 'C' :: c :: r := hr.symm
      exact (letter_plain (ZoneName.letters hname c (by simp))).2
  · cases hc
    exact hblank

theorem strip_goText (m : Moment) (a : Text) {b : Text} (hne : b ≠ []) (hb : ∀ c ∈ b, Plain c) :
    strip (goText m (a ++ b)) = goText m (a ++ b) := by
  have hstrip := strip_date m (' ' :: (m.clock ++ m.fractionText ++ ' ' :: (numericZone m.zone ++ a))) hne
    fun c hc => (hb c hc).1
  have htext : goText m (a ++ b) =
      m.date ++ ' ' :: (m.clock ++ m.fractionText ++ ' ' :: (numericZone m.zone ++ a)) ++ b := by
    rw [goText]
    simp only [List.append_assoc, List.cons_append]
  rw [htext]
  exact hstrip

theorem numericZone_plain (m : Moment) : numericZone m.zone ≠ [] ∧ ∀ c ∈ numericZone m.zone, Plain c := by
  obtain ⟨behind, hours, minutes, -, -, hzone, -⟩ := zone_parts m.zone_valid
  refine ⟨by rw [hzone]; exact List.cons_ne_nil _ _, ?_⟩
  intro c hc
  rcases mem_numericZone m.zone_valid hc with rfl | rfl | ⟨d, hd, rfl⟩
  · exact sign_plain false
  · exact sign_plain true
  · exact digit_plain hd

theorem strip_left (m : Moment) (name : ZoneName) (monotonic : Option Monotonic) :
    strip (goText m (leftName name ++ leftReading monotonic)) = goText m (leftName name ++ leftReading monotonic) := by
  cases monotonic with
  | some reading =>
    have happ : leftName name ++ leftReading (some reading) = (leftName name ++ [' ']) ++ reading.reading := by
      rw [List.append_assoc]
      rfl
    rw [happ]
    exact strip_goText m _ reading.reading_plain.1 reading.reading_plain.2
  | none =>
    have hnil : leftReading none = [] := rfl
    rw [hnil, List.append_nil, leftName]
    split
    · rename_i h
      by_cases hr : name.text.drop 3 = []
      · have hzone := strip_date m (' ' :: (m.clock ++ m.fractionText ++ [' '])) (numericZone_plain m).1
          fun c hc => ((numericZone_plain m).2 c hc).1
        have htext : goText m [] = m.date ++ ' ' :: (m.clock ++ m.fractionText ++ [' ']) ++ numericZone m.zone := by
          rw [goText]
          simp only [List.append_assoc, List.cons_append, List.nil_append, List.append_nil]
        rw [hr, htext]
        exact hzone
      · exact strip_goText m [] hr fun c hc => name.plain.2 c (List.mem_of_mem_drop hc)
    · exact strip_goText m [' '] name.plain.1 name.plain.2

theorem cleaned_goString (m : Moment) (name : ZoneName) (monotonic : Option Monotonic) :
    cleaned (goText m (' ' :: (name.text ++ Monotonic.text monotonic))) =
      goText m (leftName name ++ leftReading monotonic) := by
  have hutc := replace_goText (p := 'U') (by decide) (by decide) "TC".toList [] m
    (' ' :: (name.text ++ Monotonic.text monotonic))
  have hm := replace_goText (p := 'm') (by decide) (by decide) "=".toList " ".toList m
    (leftName name ++ Monotonic.text monotonic)
  have hname : replace (' ' :: 'U' :: "TC".toList) [] (' ' :: (name.text ++ Monotonic.text monotonic)) =
      leftName name ++ Monotonic.text monotonic := replace_utc name monotonic
  have hreading : replace (' ' :: 'm' :: "=".toList) " ".toList (leftName name ++ Monotonic.text monotonic) =
      leftName name ++ leftReading monotonic := replace_monotonic name monotonic
  rw [hname] at hutc
  rw [hreading] at hm
  refine cleaned_eq hutc hm fun hfound => ?_
  have hmem : '=' ∈ goText m (leftName name ++ leftReading monotonic) := hfound.subset (by decide)
  have hdigits : ∀ d < 10, Nat.digitChar d ≠ '=' := by decide
  rcases List.mem_append.mp hmem with h | h
  · exact m.date_ne (by decide) hdigits _ h rfl
  · rcases List.mem_cons.mp h with h | h
    · exact absurd h (by decide)
    · rcases List.mem_append.mp h with h | h
      · exact m.clock_ne (by decide) (by decide) hdigits _ h rfl
      · rcases List.mem_cons.mp h with h | h
        · exact absurd h (by decide)
        · rcases List.mem_append.mp h with h | h
          · exact ((numericZone_plain m).2 _ h).2.2 rfl
          · rcases List.mem_append.mp h with h | h
            · rcases leftName_mem h with h | h
              · exact absurd h (by decide)
              · exact h.2.2 rfl
            · cases monotonic with
              | none => cases h
              | some reading =>
                rcases List.mem_cons.mp h with h | h
                · exact absurd h (by decide)
                · exact (reading.reading_plain.2 _ h).2.2 rfl

/-- `fromisoformat` has nothing of Go's, whatever the replacement makes of the zone's name. -/
theorem iso_goString (other : Text → TimeRead) (m : Moment) {rest : Text} (hrest : rest ≠ []) :
    fromIsoFormat other (replace "Z".toList "+00:00".toList (goText m (' ' :: rest))) = .valueError := by
  have hdigits : ∀ d < 10, Nat.digitChar d ≠ 'Z' := by decide
  have hfront : ∀ c ∈ m.date ++ ' ' :: (m.clock ++ m.fractionText ++ ' ' :: (numericZone m.zone ++ [' '])), c ≠ 'Z' := by
    intro c hc
    rcases List.mem_append.mp hc with hc | hc
    · exact m.date_ne (by decide) hdigits c hc
    · rcases List.mem_cons.mp hc with rfl | hc
      · decide
      · rcases List.mem_append.mp hc with hc | hc
        · exact m.clock_ne (by decide) (by decide) hdigits c hc
        · rcases List.mem_cons.mp hc with rfl | hc
          · decide
          · rcases List.mem_append.mp hc with hc | hc
            · rcases mem_numericZone m.zone_valid hc with rfl | rfl | ⟨d, hd, rfl⟩
              · decide
              · decide
              · exact hdigits d hd
            · rw [List.mem_singleton.mp hc]
              decide
  have htext : ∀ s, goText m (' ' :: s) =
      (m.date ++ ' ' :: (m.clock ++ m.fractionText ++ ' ' :: (numericZone m.zone ++ [' ']))) ++ s := by
    intro s
    rw [goText]
    simp only [List.append_assoc, List.cons_append, List.nil_append]
  have hskip := replace_skip hfront [] "+00:00".toList rest
  rw [← htext, ← htext] at hskip
  obtain ⟨c, s, hreplaced⟩ : ∃ c s, replace ['Z'] "+00:00".toList rest = c :: s := by
    obtain ⟨c, rest, rfl⟩ := List.exists_cons_of_ne_nil hrest
    rw [replace, replaceFrom]
    split
    · exact ⟨'+', _, rfl⟩
    · exact ⟨c, _, rfl⟩
  rw [hreplaced] at hskip
  exact (congrArg (fromIsoFormat other) hskip).trans (fromIsoFormat_goString other m c s)

/-- Of Go's times those of the zone name UTC are read, without the monotonic clock, and with at
    most six digits behind the point. -/
theorem parseTime_goString (other : Text → TimeRead) (lower : String → String) (m : Moment) (name : ZoneName)
    (monotonic : Option Monotonic) :
    parseTime (python other lower) (some (Rendering.goString m name monotonic).text) =
      if (name.text = "UTC".toList ∧ monotonic = none) ∧ m.fraction.length ≤ 6 then m.held else .valueError := by
  have hne : name.text ++ Monotonic.text monotonic ≠ [] := List.append_ne_nil_of_left_ne_nil name.plain.1 _
  have hstrip : strip (goText m (' ' :: (name.text ++ Monotonic.text monotonic))) =
      goText m (' ' :: (name.text ++ Monotonic.text monotonic)) := by
    cases monotonic with
    | none =>
      rw [Monotonic.text, List.append_nil]
      exact strip_goText m [' '] name.plain.1 name.plain.2
    | some reading =>
      have happ : ' ' :: (name.text ++ Monotonic.text (some reading)) =
          (' ' :: name.text ++ " m=".toList) ++ reading.reading := by
        rw [Monotonic.text, List.cons_append, List.cons_append, List.append_assoc]
      rw [happ]
      exact strip_goText m _ reading.reading_plain.1 reading.reading_plain.2
  have htext : goText m (' ' :: (name.text ++ Monotonic.text monotonic)) ≠ [] :=
    List.append_ne_nil_of_right_ne_nil _ (List.cons_ne_nil _ _)
  have hiso : (python other lower).fromIsoFormat (replace "Z".toList "+00:00".toList
      (goText m (' ' :: (name.text ++ Monotonic.text monotonic)))) = .valueError := iso_goString other m hne
  rw [goString_text, parseTime_eq _ htext hstrip, if_pos hiso, cleaned_goString, strip_left,
    readFormats_goText other lower m (left_ends name monotonic)]
  simp only [left_nil_iff]

/-! ## What is read, and what agrees -/

theorem parseTime_iff (other : Text → TimeRead) (lower : String → String) (r : Rendering) :
    parseTime (python other lower) (some r.text) = .instant (r.nanos / 1000) ↔ r.Read := by
  cases r with
  | rfc3339 m =>
    rw [parseTime_rfc3339]
    exact held_iff m
  | goString m name monotonic =>
    rw [parseTime_goString]
    by_cases h : (name.text = "UTC".toList ∧ monotonic = none) ∧ m.fraction.length ≤ 6
    · rw [if_pos h]
      exact (held_iff m).trans ⟨fun hheld => ⟨hheld, h.2, h.1.1, h.1.2⟩, fun hread => hread.1⟩
    · rw [if_neg h]
      exact iff_of_false nofun fun hread => h ⟨⟨hread.2.2.1, hread.2.2.2⟩, hread.2.1⟩

/-- No rendering is read as another instant. -/
theorem parseTime_instant {other : Text → TimeRead} {lower : String → String} {r : Rendering} {instant : Int}
    (h : parseTime (python other lower) (some r.text) = .instant instant) : instant = r.nanos / 1000 := by
  cases r with
  | rfc3339 m =>
    rw [parseTime_rfc3339] at h
    exact held_instant h
  | goString m name monotonic =>
    rw [parseTime_goString] at h
    split at h
    · exact held_instant h
    · cases h

theorem timesMatch_true {a b : TimeRead} (h : timesMatch a b = some true) : ∃ i j, a = .instant i ∧ b = .instant j := by
  cases a with
  | instant i =>
    cases b with
    | instant j => exact ⟨i, j, rfl, rfl⟩
    | valueError => exact absurd (Option.some_inj.mp h) Bool.false_ne_true
    | raised => cases h
  | valueError =>
    cases b with
    | raised => cases h
    | valueError => exact absurd (Option.some_inj.mp h) Bool.false_ne_true
    | instant j => exact absurd (Option.some_inj.mp h) Bool.false_ne_true
  | raised => cases h

/-- A recorded time and a listed one, of one instant. -/
structure SameInstant where
  recorded : Rendering
  listed : Rendering
  same : recorded.nanos = listed.nanos

/-- A rendering is read as its instant exactly if it is one that is read, and two of one instant
    agree exactly if both are. -/
theorem times_agree_iff (other : Text → TimeRead) (lower : String → String) :
    (∀ r : Rendering, parseTime (python other lower) (some r.text) = .instant (r.nanos / 1000) ↔ r.Read) ∧
      ∀ p : SameInstant,
        timesMatch (parseTime (python other lower) (some p.recorded.text))
            (parseTime (python other lower) (some p.listed.text)) = some true ↔
          p.recorded.Read ∧ p.listed.Read := by
  refine ⟨parseTime_iff other lower, fun p => ⟨fun h => ?_, fun ⟨hrecorded, hlisted⟩ => ?_⟩⟩
  · obtain ⟨i, j, hi, hj⟩ := timesMatch_true h
    refine ⟨(parseTime_iff other lower _).mp ?_, (parseTime_iff other lower _).mp ?_⟩
    · rw [hi, parseTime_instant hi]
    · rw [hj, parseTime_instant hj]
  · rw [(parseTime_iff other lower _).mpr hrecorded, (parseTime_iff other lower _).mpr hlisted, p.same, timesMatch,
      Int.sub_self]
    rfl

/-! ## A time with nanoseconds -/

def withNanoseconds : Moment where
  year := 2026
  month := 7
  day := 26
  hour := 19
  minute := 55
  second := 59
  fraction := [1, 5, 9, 1, 2, 3, 4, 5, 6]
  zone := .utc
  year_le := by decide
  month_valid := by decide
  day_valid := by decide
  clock_valid := by decide
  fraction_digits := by decide
  fraction_length := by decide
  zone_valid := trivial

def utcName : ZoneName := ⟨"UTC".toList, .inl ⟨by decide, List.all_eq_true.mp (by decide)⟩⟩

/-- The time of a fingerprint is not read, where the listed one is, and the two do not agree. -/
theorem nanoseconds_are_not_read :
    (Rendering.goString withNanoseconds utcName none).text = "2026-07-26 19:55:59.159123456 +0000 UTC".toList ∧
      (Rendering.rfc3339 withNanoseconds).text = "2026-07-26T19:55:59.159123456Z".toList ∧
      parseTime (python (fun _ => .valueError) id) (some "2026-07-26 19:55:59.159123456 +0000 UTC".toList) = .valueError ∧
      parseTime (python (fun _ => .valueError) id) (some "2026-07-26T19:55:59.159123456Z".toList) =
        .instant (withNanoseconds.nanos / 1000) ∧
      timesMatch (parseTime (python (fun _ => .valueError) id) (some "2026-07-26 19:55:59.159123456 +0000 UTC".toList))
        (parseTime (python (fun _ => .valueError) id) (some "2026-07-26T19:55:59.159123456Z".toList)) = some false := by
  decide

end Errand.Gateway.RecordedTimes

import Errand.Lib.PyStr
import Errand.Lib.Substring
import Errand.Lib.Utf8

/-
  Errand.Runner.EditFile — one edit of a file by an exact match (`_edit_file_sync`,
  `edit_file`, task-runner/main.py).

  The file is read and written as UTF-8 text. Reading makes every line end a `\n`, so a
  file whose lines end otherwise is searched and written back with its line ends changed.
  Matches are counted without those that overlap one counted. A text with a lone surrogate
  has no bytes: writing it empties the file and raises.

  Proved:
  - `edit_changes_the_match_iff`: the edit changes the one match and nothing else, and leaves
    the file alone if there is no such match, exactly if there is one, the file has no `\r`
    and the new text no surrogate; or there is none, and not even in the text as read one
    that every other match overlaps.
  - `line_ends_are_rewritten`: where it does not.
-/

namespace Errand.Runner.EditFile

open Errand.Lib
open Errand.Lib.Substring
open Errand.Lib.Search

/-- A code point of a Python text. -/
inductive Point where
  | char (c : Char)
  | surrogate (n : Nat)
  deriving DecidableEq, Repr

abbrev Text : Type := List Point

def ofChars (s : List Char) : Text := s.map .char

/-- The text some bytes are the UTF-8 encoding of. -/
def decode? (content : List UInt8) : Option (List Char) :=
  let s := Utf8.decode content
  if Utf8.encode s = content then some s else none

/-- Universal newlines. -/
def translate : List Char → List Char
  | [] => []
  | '\r' :: '\n' :: s => '\n' :: translate s
  | '\r' :: s => '\n' :: translate s
  | c :: s => c :: translate s

def encode? : Text → Option (List UInt8)
  | [] => some []
  | .char c :: s => (encode? s).map (String.utf8EncodeChar c ++ ·)
  | .surrogate _ :: _ => none

/-- `Path.read_text(encoding="utf-8")`. -/
def readText (content : List UInt8) : Option Text := (decode? content).map fun s => ofChars (translate s)

/-- `difflib`, and what a `UnicodeError` says. -/
structure Stdlib where
  unifiedDiff : Text → Text → String → String → Text
  decodeError : List UInt8 → String
  encodeError : Text → String

inductive Reply where
  | edited (diff : Text)
  | error (message : String)
  deriving DecidableEq, Repr

section Edit

variable (L : Stdlib) (path : String)

def noVisibleDiff : Text := ofChars "No visible diff (whitespace-only change)".toList

/-- An edit of a file that is there: a reply, or a `UnicodeError`'s text, and the file
    behind it. -/
def editFileSync (content : List UInt8) (oldText newText : Text) : Except String Reply × List UInt8 :=
  match readText content with
  | none => (.error (L.decodeError content), content)
  | some original =>
    let count := count oldText original
    if count = 0 then (.ok (.error s!"Error: no match found for the provided old_text in {path}"), content)
    else if 1 < count then
      (.ok (.error
        s!"Error: found {count} matches for old_text in {path}. Provide more context for a unique match."), content)
    else
      let updated := replaceFirst oldText newText original
      match encode? updated with
      | none => (.error (L.encodeError updated), [])
      | some bytes =>
        let diff := L.unifiedDiff original updated s!"a/{path}" s!"b/{path}"
        (.ok (.edited (if diff = [] then noVisibleDiff else diff)), bytes)

def editFile (file : Option (List UInt8)) (oldText newText : Text) : Reply × Option (List UInt8) :=
  match file with
  | none => (.error s!"Error: file not found: {path}", none)
  | some content =>
    match editFileSync L path content oldText newText with
    | (.ok reply, content) => (reply, some content)
    | (.error exc, content) => (.error s!"Error: unable to edit file {path}: {exc}", some content)

end Edit

/-! ## What an edit is to do -/

/-- The text of a file, with its own line ends. -/
def text (content : List UInt8) : Option Text := (decode? content).map ofChars

/-- There is one match in the file. -/
def OneMatch (content : List UInt8) (oldText : Text) : Prop := ∃ t, text content = some t ∧ Once oldText t

/-- The one match is replaced and every other byte is kept, or the file is. -/
structure ChangesTheMatch (content : List UInt8) (oldText newText : Text) (r : Reply × Option (List UInt8)) : Prop where
  edits : ∀ t before after, text content = some t → t = before ++ oldText ++ after →
    (∀ x y, t = x ++ oldText ++ y → x = before) →
      (∃ diff, r.1 = .edited diff) ∧ ∃ p n s, encode? before = some p ∧ encode? newText = some n ∧
        encode? after = some s ∧ r.2 = some (p ++ n ++ s)
  refuses : ¬ OneMatch content oldText → (∃ message, r.1 = .error message) ∧ r.2 = some content

/-! ## Bytes -/

theorem encode?_some {s : Text} {bytes : List UInt8} (h : encode? s = some bytes) :
    ∃ cs, s = ofChars cs ∧ bytes = Utf8.encode cs := by
  induction s generalizing bytes with
  | nil =>
    cases h
    exact ⟨[], rfl, rfl⟩
  | cons p s ih =>
    cases p with
    | surrogate n => cases h
    | char c =>
      obtain ⟨rest, hrest, rfl⟩ := Option.map_eq_some_iff.mp h
      obtain ⟨cs, rfl, rfl⟩ := ih hrest
      exact ⟨c :: cs, rfl, rfl⟩

theorem encode?_ofChars (cs : List Char) : encode? (ofChars cs) = some (Utf8.encode cs) := by
  induction cs with
  | nil => rfl
  | cons c cs ih =>
    show (encode? (ofChars cs)).map _ = _
    rw [ih]
    rfl

theorem encode?_injective {s t : Text} {bytes : List UInt8} (hs : encode? s = some bytes) (ht : encode? t = some bytes) :
    s = t := by
  obtain ⟨cs, rfl, rfl⟩ := encode?_some hs
  obtain ⟨ds, rfl, heq⟩ := encode?_some ht
  have hdecode := congrArg Utf8.decode heq
  rw [Utf8.decode_encode, Utf8.decode_encode] at hdecode
  rw [hdecode]

theorem encode?_append {s t : Text} {p q : List UInt8} (hs : encode? s = some p) (ht : encode? t = some q) :
    encode? (s ++ t) = some (p ++ q) := by
  obtain ⟨cs, rfl, rfl⟩ := encode?_some hs
  obtain ⟨ds, rfl, rfl⟩ := encode?_some ht
  rw [← Utf8.encode_append, ofChars, ofChars, ← List.map_append]
  exact encode?_ofChars _

theorem encode?_parts {s t : Text} {bytes : List UInt8} (h : encode? (s ++ t) = some bytes) :
    ∃ p q, encode? s = some p ∧ encode? t = some q := by
  obtain ⟨cs, hcs, -⟩ := encode?_some h
  obtain ⟨as, bs, -, ha, hb⟩ := List.append_eq_map_iff.mp hcs
  exact ⟨_, _, by rw [← ha]; exact encode?_ofChars as, by rw [← hb]; exact encode?_ofChars bs⟩

/-- A text has bytes exactly if it has no surrogate. -/
theorem encode?_isSome_iff (s : Text) : (encode? s).isSome = true ↔ ∀ n, .surrogate n ∉ s := by
  induction s with
  | nil => simp [encode?]
  | cons p s ih =>
    cases p with
    | char c => simp [encode?, ih]
    | surrogate n => exact iff_of_false nofun fun h => h n (List.mem_cons_self ..)

/-! ## Line ends -/

/-- What a translated text consists of. -/
theorem mem_translate {s : List Char} {c : Char} (h : c ∈ translate s) : c ≠ '\r' ∧ (c ∈ s ∨ c = '\n') := by
  fun_induction translate s with
  | case1 => cases h
  | case2 s ih =>
    rcases List.mem_cons.mp h with rfl | h
    · exact ⟨by decide, .inr rfl⟩
    · exact (ih h).imp_right (.imp_left fun h => List.mem_cons_of_mem _ (List.mem_cons_of_mem _ h))
  | case3 s _ ih =>
    rcases List.mem_cons.mp h with rfl | h
    · exact ⟨by decide, .inr rfl⟩
    · exact (ih h).imp_right (.imp_left (List.mem_cons_of_mem _))
  | case4 d s _ hd ih =>
    rcases List.mem_cons.mp h with rfl | h
    · exact ⟨hd, .inl (List.mem_cons_self ..)⟩
    · exact (ih h).imp_right (.imp_left (List.mem_cons_of_mem _))

theorem translate_no_return (s : List Char) : '\r' ∉ translate s := fun h => (mem_translate h).1 rfl

theorem translate_subset {s : List Char} {c : Char} (h : c ∈ translate s) : c ∈ s ∨ c = '\n' := (mem_translate h).2

theorem translate_other {c : Char} (h : c ≠ '\r') (s : List Char) : translate (c :: s) = c :: translate s := by
  rw [translate]
  · intro s' hs
    exact absurd hs h
  · exact h

theorem translate_front {a : List Char} (h : '\r' ∉ a) (b : List Char) : translate (a ++ b) = a ++ translate b := by
  induction a with
  | nil => rfl
  | cons c a ih =>
    rw [List.mem_cons, not_or] at h
    rw [List.cons_append, translate_other (Ne.symm h.1), ih h.2]
    rfl

theorem translate_id {s : List Char} (h : '\r' ∉ s) : translate s = s := by
  have hfront := translate_front h []
  rwa [List.append_nil, show translate [] = [] from rfl, List.append_nil] at hfront

/-- A line end is translated on its own where it is not cut. -/
theorem translate_append (a : List Char) {b : List Char} (h : b.head? ≠ some '\n') :
    translate (a ++ b) = translate a ++ translate b := by
  fun_induction translate a with
  | case1 => rfl
  | case2 a ih => rw [List.cons_append, List.cons_append, translate, ih, List.cons_append]
  | case3 a ha ih =>
    rw [List.cons_append, List.cons_append, ← ih, translate]
    intro s hs
    cases a with
    | nil => exact h (by rw [show b = '\n' :: s from hs]; rfl)
    | cons c a =>
      rw [List.cons_append] at hs
      exact ha a (by rw [(List.cons.inj hs).1])
  | case4 c a hc hc' ih =>
    rw [List.cons_append, List.cons_append, ← ih, translate]
    · intro s hs
      exact absurd hs hc'
    · exact hc'

/-- White space around a text stays white space. -/
theorem strip_translate {s : List Char} (h : '\r' ∉ PyStr.strip s) : PyStr.strip (translate s) = PyStr.strip s := by
  obtain ⟨front, back, heq, hfront, hback⟩ := PyStr.strip_spec s
  have hspace : ∀ {ws : List Char}, (∀ c ∈ ws, PyStr.isSpace c = true) → ∀ c ∈ translate ws, PyStr.isSpace c = true := by
    intro ws hws c hc
    rcases translate_subset hc with hc | rfl
    · exact hws c hc
    · rfl
  have hstripped := PyStr.strip_strip s
  have hhead := PyStr.strip_head (s := s)
  generalize PyStr.strip s = m at *
  cases m with
  | nil =>
    have hall : ∀ c ∈ s, PyStr.isSpace c = true := by
      intro c hc
      rw [heq, List.append_nil] at hc
      exact (List.mem_append.mp hc).elim (hfront c) (hback c)
    have hnil := PyStr.strip_front (hspace hall) []
    rwa [List.append_nil] at hnil
  | cons c m =>
    have hc : c ≠ '\n' := by
      rintro rfl
      cases hhead _ rfl
    rw [heq, List.append_assoc, translate_append front (by simpa using hc), translate_front h, ← List.append_assoc]
    exact PyStr.strip_around (hspace hfront) (hspace hback) hstripped

/-! ## What an edit does -/

section Does

variable {L : Stdlib} {path : String} {content : List UInt8} {oldText newText : Text}

theorem refuses_unclustered (hold : oldText ≠ []) (h : ∀ t, readText content = some t → ¬ Clustered oldText t) :
    (∃ message, (editFile L path (some content) oldText newText).1 = .error message) ∧
      (editFile L path (some content) oldText newText).2 = some content := by
  cases hr : readText content with
  | none => simp [editFile, editFileSync, hr]
  | some original =>
    have hone := mt (count_one_iff hold).mp (h original hr)
    by_cases hzero : count oldText original = 0
    · simp [editFile, editFileSync, hr, hzero]
    · have hmany : 1 < count oldText original := by omega
      simp [editFile, editFileSync, hr, hzero, hmany]

/-- A match that all others overlap is replaced in the text as read. -/
theorem edits_clustered (hold : oldText ≠ []) {original : Text} (hr : readText content = some original)
    (h : Clustered oldText original) :
    ∃ a b, splitFirst oldText original = some (a, b) ∧
      (∀ bytes, encode? (a ++ newText ++ b) = some bytes →
        (∃ diff, (editFile L path (some content) oldText newText).1 = .edited diff) ∧
          (editFile L path (some content) oldText newText).2 = some bytes) ∧
      (encode? (a ++ newText ++ b) = none →
        (∃ message, (editFile L path (some content) oldText newText).1 = .error message) ∧
          (editFile L path (some content) oldText newText).2 = some []) := by
  have hone := (count_one_iff hold).mpr h
  obtain ⟨a, b, hsplit, -⟩ := (count_one_split hold).mp hone
  have hreplace : replaceFirst oldText newText original = a ++ newText ++ b := by rw [replaceFirst, hsplit]
  refine ⟨a, b, hsplit, ?_, ?_⟩
  · intro bytes hbytes
    simp [editFile, editFileSync, hr, hone, hreplace, hbytes, -List.append_assoc]
  · intro hnone
    simp [editFile, editFileSync, hr, hone, hreplace, hnone, -List.append_assoc]

theorem clustered_not_empty (hold : oldText ≠ []) {t : Text} (hr : readText content = some t)
    (h : Clustered oldText t) : content ≠ [] := by
  intro hnil
  subst hnil
  cases hr
  obtain ⟨a, b, hs, -⟩ := h
  exact hold (List.append_eq_nil_iff.mp (List.append_eq_nil_iff.mp hs.symm).1).2

end Does

theorem ofChars_return (s : List Char) : .char '\r' ∈ ofChars s ↔ '\r' ∈ s := by
  simp [ofChars]

/-- What is changed in a text without returns, put in the place of the match in a text
    with some, is another text. -/
theorem returns_differ {before after a b oldText newText : Text}
    (hr : .char '\r' ∈ before ++ oldText ++ after) (hno : .char '\r' ∉ a ++ oldText ++ b) :
    a ++ newText ++ b ≠ before ++ newText ++ after := by
  intro h
  have hcount := congrArg (List.count (.char '\r')) h
  simp only [List.count_append] at hcount
  have hzero := List.count_eq_zero.mpr hno
  have hpos := List.count_pos_iff.mpr hr
  simp only [List.count_append] at hzero hpos
  omega

section Law

variable {L : Stdlib} {path : String} {content : List UInt8} {oldText newText : Text} (hold : oldText ≠ [])
include hold

/-- Of a file with one match the text has to be as it was read. -/
theorem one_match_iff (hone : OneMatch content oldText) :
    ChangesTheMatch content oldText newText (editFile L path (some content) oldText newText) ↔
      (∀ t, decode? content = some t → '\r' ∉ t) ∧ ∀ n, .surrogate n ∉ newText := by
  have hone' := hone
  obtain ⟨t, ht, honce⟩ := hone
  obtain ⟨cs, hcs, rfl⟩ := Option.map_eq_some_iff.mp ht
  have hread : readText content = some (ofChars (translate cs)) := by
    rw [readText, hcs]
    rfl
  constructor
  · intro h
    obtain ⟨before, after, hsplit, hunique⟩ := honce
    obtain ⟨⟨diff, hdiff⟩, q, n, s, hq, hn, hs, hbytes⟩ := h.edits _ before after ht hsplit hunique
    refine ⟨?_, (encode?_isSome_iff newText).mp (by rw [hn]; rfl)⟩
    intro t' ht' hreturn
    rw [hcs] at ht'
    cases ht'
    -- an edit was made, so there is a match in the text as read
    have hclustered : Clustered oldText (ofChars (translate cs)) := by
      by_contra hno
      have hrefused := @refuses_unclustered L path content oldText newText hold fun t' ht' => by
        rw [hread] at ht'
        cases ht'
        exact hno
      obtain ⟨message, hm⟩ := hrefused.1
      rw [hdiff] at hm
      cases hm
    obtain ⟨a, b, hab, hsome, hnone⟩ := edits_clustered hold hread hclustered
    have hencode : encode? (a ++ newText ++ b) = some (q ++ n ++ s) := by
      cases he : encode? (a ++ newText ++ b) with
      | none =>
        obtain ⟨message, hm⟩ := (hnone he).1
        rw [hdiff] at hm
        cases hm
      | some bytes =>
        have hb := (hsome bytes he).2
        rw [hbytes] at hb
        rw [Option.some.inj hb]
    have hin : Point.char '\r' ∈ before ++ oldText ++ after := by
      rw [← hsplit, ofChars_return]
      exact hreturn
    have hout : Point.char '\r' ∉ a ++ oldText ++ b := by
      rw [← splitFirst_some hab, ofChars_return]
      exact translate_no_return cs
    exact returns_differ hin hout (encode?_injective hencode (encode?_append (encode?_append hq hn) hs))
  · intro h
    obtain ⟨hreturn, hsurrogate⟩ := h
    rw [translate_id (hreturn cs hcs)] at hread
    obtain ⟨n, hn⟩ := Option.isSome_iff_exists.mp ((encode?_isSome_iff newText).mpr hsurrogate)
    obtain ⟨a, b, hab, hsome, -⟩ := edits_clustered hold hread (once_clustered hold honce)
    refine ⟨?_, fun hno => absurd hone' hno⟩
    intro t before after ht' hsplit _
    rw [ht] at ht'
    cases ht'
    rw [once_split honce hsplit] at hab
    cases hab
    obtain ⟨r, s, hr, hs⟩ := encode?_parts (hsplit ▸ encode?_ofChars cs)
    obtain ⟨q, -, hq, -⟩ := encode?_parts hr
    obtain ⟨hdiff, hbytes⟩ := hsome _ (encode?_append (encode?_append hq hn) hs)
    exact ⟨hdiff, q, n, s, hq, hn, hs, hbytes⟩

/-- A file without one match is left alone exactly if none is found in the text as read. -/
theorem no_match_iff (hone : ¬ OneMatch content oldText) :
    ChangesTheMatch content oldText newText (editFile L path (some content) oldText newText) ↔
      ∀ t, readText content = some t → ¬ Clustered oldText t := by
  constructor
  · intro h t hread hclustered
    obtain ⟨⟨message, hm⟩, hkept⟩ := h.refuses hone
    obtain ⟨a, b, -, hsome, hnone⟩ := edits_clustered hold hread hclustered
    cases he : encode? (a ++ newText ++ b) with
    | none =>
      have hempty := (hnone he).2
      rw [hkept] at hempty
      exact clustered_not_empty hold hread hclustered (Option.some.inj hempty)
    | some bytes =>
      obtain ⟨diff, hdiff⟩ := (hsome bytes he).1
      rw [hm] at hdiff
      cases hdiff
  · intro h
    refine ⟨?_, fun _ => refuses_unclustered hold h⟩
    intro t before after ht hsplit hunique
    exact absurd ⟨t, ht, before, after, hsplit, hunique⟩ hone

end Law

/-- The edit does what it is to do exactly if there is one match, the file has no `\r` and
    the new text can be written, or there is not one match, and in the text as read none
    that every other one overlaps. -/
theorem edit_changes_the_match_iff (L : Stdlib) (path : String) (content : List UInt8) (p : Point)
    (oldText newText : Text) :
    ChangesTheMatch content (p :: oldText) newText (editFile L path (some content) (p :: oldText) newText) ↔
      OneMatch content (p :: oldText) ∧ (∀ t, decode? content = some t → '\r' ∉ t) ∧ (∀ n, .surrogate n ∉ newText) ∨
      ¬ OneMatch content (p :: oldText) ∧ ∀ t, readText content = some t → ¬ Clustered (p :: oldText) t := by
  by_cases hone : OneMatch content (p :: oldText)
  · rw [one_match_iff (List.cons_ne_nil _ _) hone]
    simp [hone]
  · rw [no_match_iff (List.cons_ne_nil _ _) hone]
    simp [hone]

/-! ## Edits that do something else -/

def plain : Stdlib := ⟨fun _ _ _ _ => [], fun _ => "", fun _ => ""⟩

/-- An edit of a file whose lines end in `\r\n` rewrites them all. -/
theorem line_ends_are_rewritten :
    ¬ ∀ (L : Stdlib) (path : String) (content : List UInt8) (oldText newText : Text), oldText ≠ [] →
      ChangesTheMatch content oldText newText (editFile L path (some content) oldText newText) := by
  intro h
  have hlaw := h plain "f" [0x61, 0x0d, 0x0a] [.char 'a'] [.char 'b'] nofun
  have hone : OneMatch [0x61, 0x0d, 0x0a] [.char 'a'] := by
    refine ⟨[.char 'a', .char '\r', .char '\n'], by decide, [], [.char '\r', .char '\n'], rfl, ?_⟩
    intro x y hxy
    cases x with
    | nil => rfl
    | cons d x =>
      obtain ⟨-, hxy⟩ := List.cons.inj hxy
      have hmem : Point.char 'a' ∈ [Point.char '\r', Point.char '\n'] := hxy ▸ by simp
      exact absurd hmem (by decide)
  have hno := ((one_match_iff (List.cons_ne_nil _ _) hone).mp hlaw).1 ['a', '\r', '\n'] (by decide)
  simp at hno

end Errand.Runner.EditFile

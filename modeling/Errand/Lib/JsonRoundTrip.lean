import Errand.Lib.JsonParse
import Errand.Lib.PyStr
import Mathlib.Data.List.TakeWhile

/-
  Errand.Lib.JsonRoundTrip — what a layout writes is read back.

  A layout can be read if a string takes its escapes for the characters they stand for,
  and its separators are a comma or a colon and white space. A value is read off the front
  of a text, as long as what follows cannot belong to a number.

  Rules:
  - `value_write`, `parse_write`: every value, in every layout that can be read.
  - `write_injective`: so a text is that of one value.
  - `write_all`: what is true of each character of strings, numbers and separators is true of
    the text; so it is one line (`write_oneLine`), and printable ASCII (`printable_dumps`).
-/

namespace Errand.Lib

open Number

namespace Json

/-! ## Strings are read back -/

theorem hexValue?_digitChar : ∀ d < 16, hexValue? (Nat.digitChar d) = some d := by decide

theorem stringBody_read {w w' : Within} {c : Char} {cs : List Char} (h : advance w c = .read cs w') (s : List Char) :
    stringBody w (c :: s) = (stringBody w' s).map fun r => (cs ++ r.1, r.2) := by
  rw [stringBody, h]

theorem stringBody_skip {w w' : Within} {c : Char} (h : advance w c = .read [] w') (s : List Char) :
    stringBody w (c :: s) = stringBody w' s := by
  rw [stringBody_read h]
  exact Option.map_id_apply

theorem stringBody_hex4 (high : Option Nat) {n : Nat} (h : n < 0x10000) (s : List Char) :
    stringBody (.hex high 0 0) (hex4 n ++ s) =
      match codePoint high n with
      | none => none
      | some (.inl c) => (stringBody .text s).map fun r => (c :: r.1, r.2)
      | some (.inr high) => stringBody (.half high) s := by
  have hd : ∀ m, hexValue? (Nat.digitChar (m % 16)) = some (m % 16) :=
    fun m => hexValue?_digitChar _ (Nat.mod_lt _ (by decide))
  have next : ∀ k v m, k < 3 →
      advance (.hex high k v) (Nat.digitChar (m % 16)) = .read [] (.hex high (k + 1) (16 * v + m % 16)) := by
    intro k v m hk
    simp only [advance, hd, hk, if_true]
  have hv : 16 * (16 * (16 * (16 * 0 + n / 4096 % 16) + n / 256 % 16) + n / 16 % 16) + n % 16 = n := by omega
  simp only [hex4, List.map_cons, List.map_nil, List.cons_append, List.nil_append]
  rw [stringBody_skip (next 0 _ _ (by decide)), stringBody_skip (next 1 _ _ (by decide)),
    stringBody_skip (next 2 _ _ (by decide)), stringBody]
  simp only [advance, hd, hv, Nat.reduceAdd, Nat.lt_irrefl, if_false]
  cases codePoint high n with
  | none => rfl
  | some x =>
    cases x with
    | inl c => rfl
    | inr high => exact Option.map_id_apply

theorem stringBody_u (s : List Char) : stringBody .text ('\\' :: 'u' :: s) = stringBody (.hex none 0 0) s := by
  rw [stringBody_skip rfl, stringBody_skip rfl]

theorem stringBody_half (high : Nat) (s : List Char) :
    stringBody (.half high) ('\\' :: 'u' :: s) = stringBody (.hex (some high) 0 0) s := by
  rw [stringBody_skip rfl, stringBody_skip rfl]

theorem ofNat_of_toNat {c : Char} {n : Nat} (h : c.toNat = n) : Char.ofNat n = c := by
  rw [← h, Char.ofNat_toNat]

/-- Every character that has one is what its short escape is read as. -/
theorem shortEscape_some {c : Char} {e : List Char} (h : shortEscape c = some e) :
    ∃ d, e = ['\\', d] ∧ unescape? d = some c := by
  unfold shortEscape at h
  split at h
  · cases h; subst c; exact ⟨_, rfl, rfl⟩
  split at h
  · cases h; subst c; exact ⟨_, rfl, rfl⟩
  split at h
  · cases h; subst c; exact ⟨_, rfl, rfl⟩
  split at h
  · cases h; subst c; exact ⟨_, rfl, rfl⟩
  split at h
  · cases h; subst c; exact ⟨_, rfl, rfl⟩
  split at h
  · rename_i hc
    cases h
    rw [← ofNat_of_toNat hc]
    exact ⟨_, rfl, rfl⟩
  split at h
  · rename_i hc
    cases h
    rw [← ofNat_of_toNat hc]
    exact ⟨_, rfl, rfl⟩
  · cases h

theorem stringBody_short {c : Char} {e : List Char} (h : shortEscape c = some e) (s : List Char) :
    stringBody .text (e ++ s) = (stringBody .text s).map fun r => (c :: r.1, r.2) := by
  obtain ⟨d, rfl, hd⟩ := shortEscape_some h
  have hread : advance .escaped d = .read [c] .text := by
    unfold advance
    simp only [hd]
  rw [List.cons_append, List.cons_append, List.nil_append, stringBody_skip rfl, stringBody_read hread]
  rfl

theorem shortEscape_none {c : Char} (h : shortEscape c = none) : c ≠ '"' ∧ c ≠ '\\' := by
  unfold shortEscape at h
  constructor
  · intro heq
    subst heq
    cases h
  · intro heq
    subst heq
    cases h

theorem char_range (c : Char) : c.toNat < 0xd800 ∨ 0xe000 ≤ c.toNat ∧ c.toNat < 0x110000 := by
  have := c.valid
  unfold UInt32.isValidChar Nat.isValidChar at this
  unfold Char.toNat
  omega

theorem stringBody_plain {c : Char} (h : shortEscape c = none) (hc : 0x20 ≤ c.toNat) (s : List Char) :
    stringBody .text (c :: s) = (stringBody .text s).map fun r => (c :: r.1, r.2) := by
  obtain ⟨hq, hb⟩ := shortEscape_none h
  have hread : advance .text c = .read [c] .text := by
    unfold advance
    simp only [hq, hb, if_false, Nat.not_lt.mpr hc]
  rw [stringBody_read hread]
  rfl

theorem stringBody_unicode {c : Char} (h : c.toNat < 0x10000) (s : List Char) :
    stringBody .text (['\\', 'u'] ++ hex4 c.toNat ++ s) = (stringBody .text s).map fun r => (c :: r.1, r.2) := by
  have hcode : codePoint none c.toNat = some (.inl c) := by
    have := char_range c
    unfold codePoint
    simp only
    rw [if_neg (by omega), if_neg (by omega), Char.ofNat_toNat]
  rw [List.append_assoc, List.cons_append, List.cons_append, List.nil_append, stringBody_u, stringBody_hex4 none h, hcode]

theorem stringBody_escape (c : Char) (s : List Char) :
    stringBody .text (escape c ++ s) = (stringBody .text s).map fun r => (c :: r.1, r.2) := by
  unfold escape
  split
  · rename_i e h
    exact stringBody_short h s
  rename_i h
  split
  · rename_i hc
    exact stringBody_plain h hc.1 s
  split
  · rename_i hc
    exact stringBody_unicode hc s
  · rename_i hc
    -- a pair of halves
    have hr := char_range c
    generalize hn : c.toNat - 0x10000 = n
    have hn' : n < 0x100000 := by omega
    have hhigh : codePoint none (0xd800 + n / 1024 % 1024) = some (.inr (0xd800 + n / 1024 % 1024)) := by
      unfold codePoint
      simp only
      rw [if_pos (by omega)]
    have hlow : codePoint (some (0xd800 + n / 1024 % 1024)) (0xdc00 + n % 1024) = some (.inl c) := by
      unfold codePoint
      simp only
      rw [if_pos (by omega), ofNat_of_toNat (by omega : c.toNat = _)]
    simp only [List.append_assoc, List.cons_append, List.nil_append]
    rw [stringBody_u, stringBody_hex4 none (by omega), hhigh]
    simp only
    rw [stringBody_half, stringBody_hex4 _ (by omega), hlow]

theorem stringBody_escapeControl (c : Char) (s : List Char) :
    stringBody .text (escapeControl c ++ s) = (stringBody .text s).map fun r => (c :: r.1, r.2) := by
  unfold escapeControl
  split
  · rename_i e h
    exact stringBody_short h s
  rename_i h
  split
  · exact stringBody_unicode (by omega) s
  · exact stringBody_plain h (by omega) s

/-! ## Scalars are read back -/

/-- Digits with no zero in front, unless they are all. -/
theorem toDigits_head (n : Nat) : ∀ d, (Nat.toDigits 10 n).head? = some d → d = '0' → n = 0 := by
  induction n using Nat.base_induction 10 (by decide) with
  | single m hm =>
    intro d hd h0
    rw [Nat.toDigits_of_lt_base hm, List.head?_cons, Option.some.injEq] at hd
    rw [h0] at hd
    revert hm hd
    revert m
    decide
  | digit m k hk hm ih =>
    intro d hd h0
    rw [← Nat.toDigits_append_toDigits (by decide) hm hk, List.head?_append_of_ne_nil _ Nat.toDigits_ne_nil] at hd
    exact absurd (ih d hd h0) (by omega)

theorem intPart_toDigits (n : Nat) : intPart (Nat.toDigits 10 n) = some [] := by
  have hall : ∀ c ∈ Nat.toDigits 10 n, c.isDigit = true :=
    fun c hc => Nat.isDigit_of_mem_toDigits (by decide) (by decide) hc
  cases hs : Nat.toDigits 10 n with
  | nil => exact absurd hs Nat.toDigits_ne_nil
  | cons d ds =>
    by_cases h0 : d = '0'
    · have hn := toDigits_head n d (by rw [hs]; rfl) h0
      subst hn
      cases hs
      rfl
    · have hd : digits (d :: ds) = some [] := by
        rw [hs] at hall
        unfold digits
        rw [List.head?_cons, Option.any_some, hall d (by simp), if_pos rfl,
          List.dropWhile_eq_nil_iff.mpr (fun c hc => hall c hc)]
      unfold intPart
      split
      · rename_i heq
        cases heq
        exact absurd rfl h0
      · exact hd

theorem unsigned_digits {s : List Char} (h : ∀ c ∈ s, c.isDigit = true) : unsigned s = s := by
  unfold unsigned
  split
  · exact absurd (h '-' (by simp)) (by decide)
  · rfl

theorem toString_int (n : Int) :
    (toString n).toList = if 0 ≤ n then Nat.toDigits 10 n.toNat else '-' :: Nat.toDigits 10 (-n).toNat := by
  rw [Int.toString_eq_repr, Int.repr_eq_if]
  split
  · exact Nat.toList_repr
  · rw [String.toList_append, Nat.toList_repr]
    rfl

theorem isInt_toString (n : Int) : isInt (toString n).toList = true := by
  rw [toString_int]
  unfold isInt
  split
  · rw [unsigned_digits fun c hc => Nat.isDigit_of_mem_toDigits (by decide) (by decide) hc, intPart_toDigits]
    rfl
  · show (intPart (Nat.toDigits 10 (-n).toNat) == some []) = true
    rw [intPart_toDigits]
    rfl

theorem intValue_toString (n : Int) : intValue (toString n).toList = n := by
  rw [toString_int]
  split
  · have hdig : ∀ c ∈ Nat.toDigits 10 n.toNat, c.isDigit = true :=
      fun c hc => Nat.isDigit_of_mem_toDigits (by decide) (by decide) hc
    unfold intValue
    split
    · rename_i s heq
      exact absurd (hdig '-' (by rw [heq]; simp)) (by decide)
    · rw [Nat.ofDigitChars_ten_toDigits]
      omega
  · show -(Nat.ofDigitChars 10 (Nat.toDigits 10 (-n).toNat) 0 : Int) = n
    rw [Nat.ofDigitChars_ten_toDigits]
    omega

theorem atomChar_of_digit {c : Char} (h : c.isDigit = true) : isAtomChar c = true := by
  simp [isAtomChar, Char.isAlphanum, h]

theorem toString_atomChars (n : Int) : ∀ c ∈ (toString n).toList, isAtomChar c = true := by
  have hdig : ∀ m, ∀ c ∈ Nat.toDigits 10 m, isAtomChar c = true :=
    fun m c hc => atomChar_of_digit (Nat.isDigit_of_mem_toDigits (by decide) (by decide) hc)
  rw [toString_int]
  split
  · exact hdig _
  · intro c hc
    rcases List.mem_cons.mp hc with rfl | hc
    · rfl
    · exact hdig _ c hc

/-- A text in one run that is read as the scalar `j`. -/
structure Atom (s : List Char) (j : Json) : Prop where
  chars : ∀ c ∈ s, isAtomChar c = true
  nonempty : s ≠ []
  read : atom? s = some j

theorem atom_int (n : Int) : Atom (toString n).toList (.int n) := by
  refine ⟨toString_atomChars n, ?_, ?_⟩
  · rw [toString_int]
    split
    · exact Nat.toDigits_ne_nil
    · simp
  · have ne : ∀ s : List Char, isInt s = false → (toString n).toList ≠ s := by
      intro s hs heq
      rw [← heq, isInt_toString] at hs
      cases hs
    unfold atom?
    rw [if_neg (ne _ (by decide)), if_neg (ne _ (by decide)), if_neg (ne _ (by decide)), if_pos (isInt_toString n),
      intValue_toString]

theorem atom_float (x : PyFloat) : Atom x.text.toList (.float x) := by
  have hx := x.isFloat
  have ne : ∀ s : List Char, isFloat s = false → x.text.toList ≠ s := by
    intro s hs heq
    rw [← heq, hx] at hs
    cases hs
  refine ⟨?_, ne [] (by decide), ?_⟩
  · simp only [isFloat, Bool.and_eq_true, List.all_eq_true] at hx
    exact hx.1.1
  · have hint : isInt x.text.toList = false := by
      simp only [isFloat, Bool.and_eq_true, Bool.not_eq_true'] at hx
      exact hx.1.2
    unfold atom?
    rw [if_neg (ne _ (by decide)), if_neg (ne _ (by decide)), if_neg (ne _ (by decide)), if_neg (by simp [hint]),
      dif_pos (by rw [String.ofList_toList]; exact hx)]
    simp only [String.ofList_toList]

/-! ## Layouts -/

/-- A layout the parser reads. -/
structure Layout.Valid (L : Layout) : Prop where
  escape : ∀ c s, stringBody .text (L.escape c ++ s) = (stringBody .text s).map fun r => (c :: r.1, r.2)
  itemSep : ∃ pad, L.itemSep = ',' :: pad ∧ ∀ c ∈ pad, isWs c = true
  keySep : ∃ pad, L.keySep = ':' :: pad ∧ ∀ c ∈ pad, isWs c = true

theorem spaced_valid : spaced.Valid :=
  ⟨stringBody_escape, ⟨[' '], rfl, List.all_eq_true.mp rfl⟩, ⟨[' '], rfl, List.all_eq_true.mp rfl⟩⟩

theorem compact_valid : compact.Valid :=
  ⟨stringBody_escapeControl, ⟨[], rfl, List.forall_mem_nil _⟩, ⟨[], rfl, List.forall_mem_nil _⟩⟩

theorem writeItems_eq (L : Layout) (js : List Json) : writeItems L js = L.itemSep.intercalate (js.map (write L)) := by
  induction js with
  | nil => rfl
  | cons j js ih =>
    cases js with
    | nil => simp [writeItems]
    | cons j' js =>
      rw [writeItems, ih, List.map_cons, List.map_cons, List.map_cons, List.intercalate_cons_cons]
      simp

theorem writeFields_eq (L : Layout) (fs : List (String × Json)) :
    writeFields L fs = L.itemSep.intercalate (fs.map (writeField L)) := by
  induction fs with
  | nil => rfl
  | cons f fs ih =>
    cases fs with
    | nil => simp [writeFields]
    | cons f' fs =>
      rw [writeFields, ih, List.map_cons, List.map_cons, List.map_cons, List.intercalate_cons_cons]
      simp

/-- What may follow a scalar. -/
def Ends (s : List Char) : Prop := ∀ c, s.head? = some c → isAtomChar c = false

theorem skipWs_pad {pad : List Char} (h : ∀ c ∈ pad, isWs c = true) (s : List Char) : skipWs (pad ++ s) = skipWs s := by
  unfold skipWs
  rw [List.dropWhile_append_of_pos h]

theorem skipWs_cons {c : Char} (h : isWs c = false) (s : List Char) : skipWs (c :: s) = c :: s := by
  unfold skipWs
  rw [List.dropWhile_cons_of_neg (by simp [h])]

theorem value_pad {pad : List Char} (h : ∀ c ∈ pad, isWs c = true) (n : Nat) (s : List Char) :
    value n (pad ++ s) = value n s := by
  cases n with
  | zero => rfl
  | succ n => rw [value, value, skipWs_pad h]

theorem member_pad {elem : List Char → Option (Json × List Char)} {pad : List Char}
    (h : ∀ c ∈ pad, isWs c = true) (s : List Char) : member elem (pad ++ s) = member elem s := by
  rw [member, member, skipWs_pad h]

/-! ## Values are read back -/

theorem stringBody_quote {L : Layout} (hL : L.Valid) (cs rest : List Char) :
    stringBody .text (cs.flatMap L.escape ++ '"' :: rest) = some (cs, rest) := by
  induction cs with
  | nil => rfl
  | cons c cs ih =>
    rw [List.flatMap_cons, List.append_assoc, hL.escape, ih]
    rfl

theorem value_atom {s : List Char} {j : Json} (h : Atom s j) (n : Nat) {rest : List Char} (hr : Ends rest) :
    value (n + 1) (s ++ rest) = some (j, rest) := by
  cases hs : s with
  | nil => exact absurd hs h.nonempty
  | cons c s' =>
    have hc : isAtomChar c = true := h.chars c (by rw [hs]; simp)
    have ne : ∀ d, isAtomChar d = false → c ≠ d := by
      intro d hd heq
      rw [heq, hd] at hc
      cases hc
    have hws : isWs c = false := by
      simp [isWs, ne ' ' (by decide), ne '\t' (by decide), ne '\n' (by decide), ne '\r' (by decide)]
    have hrun : PyStr.splitRun isAtomChar (c :: s' ++ rest) = (c :: s', rest) :=
      PyStr.splitRun_append (fun d hd => h.chars d (hs ▸ hd)) hr
    obtain ⟨htake, hdrop⟩ := Prod.mk.inj hrun
    rw [value, List.cons_append, skipWs_cons hws]
    simp only
    rw [if_neg (ne _ (by decide)), if_neg (ne _ (by decide)), if_neg (ne _ (by decide)), ← List.cons_append, htake, hdrop,
      ← hs, h.read]
    rfl

theorem sequence_intercalate {α : Type} {elem : List Char → Option (α × List Char)} {close : Char} {pad : List Char}
    {text : α → List Char} (hpad : ∀ s, elem (pad ++ s) = elem s)
    (hclose : close ≠ ',' ∧ isWs close = false ∧ isAtomChar close = false) (rest : List Char) :
    ∀ (items : List α) (n : Nat), items ≠ [] → items.length ≤ n →
      (∀ a ∈ items, ∀ rest, Ends rest → elem (text a ++ rest) = some (a, rest)) →
      sequence elem close n ((',' :: pad).intercalate (items.map text) ++ close :: rest) = some (items, rest) := by
  intro items
  induction items with
  | nil =>
    intro n h
    exact absurd rfl h
  | cons a items ih =>
    intro n _ hn helem
    obtain ⟨n, rfl⟩ : ∃ m, n = m + 1 := ⟨n - 1, by simp only [List.length_cons] at hn; omega⟩
    have ha := helem a (by simp)
    cases items with
    | nil =>
      have hends : Ends (close :: rest) := by
        intro c hc
        cases hc
        exact hclose.2.2
      rw [List.map_cons, List.map_nil, List.intercalate_singleton, sequence, ha _ hends]
      simp only
      rw [skipWs_cons hclose.2.1]
      simp only
      rw [if_neg hclose.1, if_pos trivial]
    | cons b items =>
      have htail := ih n (by simp) (by simpa using hn) (fun x hx => helem x (by simp [hx]))
      have hends : ∀ s, Ends (',' :: s) := by
        intro s c hc
        cases hc
        rfl
      rw [List.map_cons, List.map_cons, List.intercalate_cons_cons, List.append_assoc, List.append_assoc,
        List.cons_append, sequence, ha _ (hends _)]
      simp only
      rw [skipWs_cons (by decide)]
      simp only
      rw [if_pos trivial]
      have hskip : sequence elem close n (pad ++ ((',' :: pad).intercalate ((b :: items).map text) ++ close :: rest)) =
          sequence elem close n ((',' :: pad).intercalate ((b :: items).map text) ++ close :: rest) := by
        cases n with
        | zero => rfl
        | succ n => rw [sequence, sequence, hpad]
      rw [← List.map_cons, hskip, htail]
      rfl

theorem member_write {L : Layout} (hL : L.Valid) {elem : List Char → Option (Json × List Char)}
    (hpad : ∀ pad, (∀ c ∈ pad, isWs c = true) → ∀ s, elem (pad ++ s) = elem s) {k : String} {j : Json} {rest : List Char}
    (h : elem (write L j ++ rest) = some (j, rest)) : member elem (writeField L (k, j) ++ rest) = some ((k, j), rest) := by
  obtain ⟨pad, hkey, hws⟩ := hL.keySep
  have htext : writeField L (k, j) ++ rest =
      '"' :: (k.toList.flatMap L.escape ++ '"' :: (':' :: (pad ++ (write L j ++ rest)))) := by
    simp [writeField, quote, hkey]
  rw [htext, member, skipWs_cons (by decide)]
  simp only
  rw [if_pos trivial, stringBody_quote hL]
  simp only
  rw [skipWs_cons (by decide)]
  simp only
  rw [if_pos trivial, hpad pad hws, h, Option.map_some, String.ofList_toList]

/-- A text of a value begins with a character that is no space, and closes nothing. -/
theorem write_head (L : Layout) (j : Json) :
    ∃ c s, write L j = c :: s ∧ isWs c = false ∧ c ≠ ']' ∧ c ≠ '}' := by
  have atom : ∀ {s : List Char} {j : Json}, Atom s j → ∃ c t, s = c :: t ∧ isWs c = false ∧ c ≠ ']' ∧ c ≠ '}' := by
    intro s j h
    cases hs : s with
    | nil => exact absurd hs h.nonempty
    | cons c t =>
      have hc : isAtomChar c = true := h.chars c (by rw [hs]; simp)
      have ne : ∀ d, isAtomChar d = false → c ≠ d := by
        intro d hd heq
        rw [heq, hd] at hc
        cases hc
      exact ⟨c, t, rfl, by simp [isWs, ne ' ' (by decide), ne '\t' (by decide), ne '\n' (by decide), ne '\r' (by decide)],
        ne _ (by decide), ne _ (by decide)⟩
  cases j with
  | null => exact ⟨'n', _, rfl, by decide, by decide, by decide⟩
  | bool b =>
    cases b with
    | true => exact ⟨'t', _, rfl, by decide, by decide, by decide⟩
    | false => exact ⟨'f', _, rfl, by decide, by decide, by decide⟩
  | int n => exact atom (atom_int n)
  | float x => exact atom (atom_float x)
  | str s => exact ⟨'"', _, rfl, by decide, by decide, by decide⟩
  | arr items => exact ⟨'[', _, rfl, by decide, by decide, by decide⟩
  | obj fields => exact ⟨'{', _, rfl, by decide, by decide, by decide⟩

theorem writeField_head (L : Layout) (f : String × Json) : ∃ s, writeField L f = '"' :: s := by
  obtain ⟨k, j⟩ := f
  exact ⟨_, rfl⟩

theorem length_le_intercalate {α : Type} (sep : List α) : ∀ (ts : List (List α)), ∀ t ∈ ts,
    t.length ≤ (sep.intercalate ts).length := by
  intro ts
  induction ts with
  | nil =>
    intro t h
    cases h
  | cons u us ih =>
    intro t h
    cases us with
    | nil =>
      rw [List.mem_singleton.mp h, List.intercalate_singleton]
    | cons v us =>
      rw [List.intercalate_cons_cons, List.length_append, List.length_append]
      rcases List.mem_cons.mp h with rfl | h
      · omega
      · have := ih t h
        omega

theorem count_le_intercalate {α : Type} (sep : List α) : ∀ (ts : List (List α)), (∀ t ∈ ts, t ≠ []) →
    ts.length ≤ (sep.intercalate ts).length := by
  intro ts
  induction ts with
  | nil =>
    intro _
    exact Nat.zero_le _
  | cons u us ih =>
    intro h
    have hu := List.length_pos_iff.mpr (h u (by simp))
    cases us with
    | nil =>
      rw [List.intercalate_singleton, List.length_singleton]
      exact hu
    | cons v us =>
      have := ih fun t ht => h t (by simp [ht])
      rw [List.intercalate_cons_cons, List.length_append, List.length_append]
      simp only [List.length_cons] at this ⊢
      omega

theorem container_write {α : Type} {elem : List Char → Option (α × List Char)} {close : Char} {pad : List Char}
    {text : α → List Char} {n : Nat} {items : List α}
    (hpad : ∀ s, elem (pad ++ s) = elem s) (hclose : close ≠ ',' ∧ isWs close = false ∧ isAtomChar close = false)
    (hhead : ∀ a ∈ items, ∃ c s, text a = c :: s ∧ isWs c = false ∧ c ≠ close)
    (hn : ((',' :: pad).intercalate (items.map text)).length ≤ n)
    (helem : ∀ a ∈ items, (text a).length ≤ n → ∀ rest, Ends rest → elem (text a ++ rest) = some (a, rest))
    (rest : List Char) :
    container elem close n ((',' :: pad).intercalate (items.map text) ++ close :: rest) = some (items, rest) := by
  cases items with
  | nil =>
    rw [List.map_nil, List.intercalate_nil, List.nil_append, container, skipWs_cons hclose.2.1]
    simp only
    rw [if_pos trivial]
  | cons a items =>
    have hlen : ∀ b ∈ a :: items, (text b).length ≤ n := fun b hb =>
      (length_le_intercalate _ _ _ (List.mem_map_of_mem hb)).trans hn
    have hcount : (a :: items).length ≤ n := by
      have hne : ∀ t ∈ (a :: items).map text, t ≠ [] := by
        intro t ht
        obtain ⟨b, hb, rfl⟩ := List.mem_map.mp ht
        obtain ⟨c, s, hc, -⟩ := hhead b hb
        rw [hc]
        exact List.cons_ne_nil _ _
      have := count_le_intercalate (',' :: pad) ((a :: items).map text) hne
      rw [List.length_map] at this
      exact this.trans hn
    have hseq := sequence_intercalate hpad hclose rest (a :: items) n (by simp) hcount
      fun b hb => helem b hb (hlen b hb)
    obtain ⟨c, s, hc, hws, hne⟩ := hhead a (by simp)
    obtain ⟨s', hs'⟩ : ∃ s', (',' :: pad).intercalate ((a :: items).map text) ++ close :: rest = c :: s' := by
      rw [List.map_cons, hc, List.intercalate_cons_cons_left]
      exact ⟨_, rfl⟩
    rw [hs'] at hseq ⊢
    rw [container, skipWs_cons hws]
    simp only
    rw [if_neg hne, hseq]

/-- What a layout writes is read off the front. -/
theorem value_write {L : Layout} (hL : L.Valid) : ∀ (n : Nat) (j : Json) (rest : List Char),
    (write L j).length ≤ n → Ends rest → value n (write L j ++ rest) = some (j, rest) := by
  obtain ⟨pad, hsep, hws⟩ := hL.itemSep
  intro n
  induction n with
  | zero =>
    intro j rest hlen
    obtain ⟨c, s, hc, -⟩ := write_head L j
    rw [hc] at hlen
    cases hlen
  | succ n ih =>
    intro j rest hlen hrest
    cases j with
    | null => exact value_atom (s := "null".toList) ⟨List.all_eq_true.mp rfl, by decide, rfl⟩ n hrest
    | bool b =>
      cases b with
      | true => exact value_atom (s := "true".toList) ⟨List.all_eq_true.mp rfl, by decide, rfl⟩ n hrest
      | false => exact value_atom (s := "false".toList) ⟨List.all_eq_true.mp rfl, by decide, rfl⟩ n hrest
    | int i => exact value_atom (atom_int i) n hrest
    | float x => exact value_atom (atom_float x) n hrest
    | str s =>
      have htext : write L (.str s) ++ rest = '"' :: (s.toList.flatMap L.escape ++ '"' :: rest) := by
        simp [write, quote]
      rw [htext, value, skipWs_cons (by decide)]
      simp only
      rw [if_pos trivial, stringBody_quote hL, Option.map_some, String.ofList_toList]
    | arr items =>
      have htext : write L (.arr items) ++ rest = '[' :: (L.itemSep.intercalate (items.map (write L)) ++ ']' :: rest) := by
        simp [write, writeItems_eq]
      have hn : (L.itemSep.intercalate (items.map (write L))).length ≤ n := by
        simp only [write, writeItems_eq, List.length_append, List.length_cons, List.length_nil] at hlen
        omega
      have hitems : container (value n) ']' n (L.itemSep.intercalate (items.map (write L)) ++ ']' :: rest) =
          some (items, rest) := by
        rw [hsep] at hn ⊢
        refine container_write (value_pad hws n) (by decide) ?_ hn (fun a _ ha rest => ih a rest ha) rest
        intro a _
        obtain ⟨c, s, hc, h1, h2, -⟩ := write_head L a
        exact ⟨c, s, hc, h1, h2⟩
      rw [htext, value, skipWs_cons (by decide)]
      simp only
      rw [if_neg (by decide), if_pos trivial, hitems]
      rfl
    | obj fields =>
      have htext : write L (.obj fields) ++ rest =
          '{' :: (L.itemSep.intercalate (fields.map (writeField L)) ++ '}' :: rest) := by
        simp [write, writeFields_eq]
      have hn : (L.itemSep.intercalate (fields.map (writeField L))).length ≤ n := by
        simp only [write, writeFields_eq, List.length_append, List.length_cons, List.length_nil] at hlen
        omega
      have hfields : container (member (value n)) '}' n
          (L.itemSep.intercalate (fields.map (writeField L)) ++ '}' :: rest) = some (fields, rest) := by
        rw [hsep] at hn ⊢
        refine container_write (member_pad hws) (by decide) ?_ hn ?_ rest
        · intro f _
          obtain ⟨s, hs⟩ := writeField_head L f
          exact ⟨'"', s, hs, by decide, by decide⟩
        · intro f _ hf rest hrest
          obtain ⟨k, j⟩ := f
          have hv : (write L j).length ≤ n := by
            simp only [writeField, List.length_append] at hf
            omega
          exact member_write hL (fun pad hpad => value_pad hpad n) (ih j rest hv hrest)
      rw [htext, value, skipWs_cons (by decide)]
      simp only
      rw [if_neg (by decide), if_neg (by decide), if_pos trivial, hfields]
      rfl

theorem parse_write {L : Layout} (hL : L.Valid) (j : Json) : parse (write L j) = some j := by
  have h := value_write hL ((write L j).length + 1) j [] (Nat.le_succ _) (by intro c hc; cases hc)
  rw [List.append_nil] at h
  unfold parse
  rw [h]
  rfl

theorem write_injective {L : Layout} (hL : L.Valid) {j j' : Json} (h : write L j = write L j') : j = j' := by
  have hj := parse_write hL j
  rw [h, parse_write hL j', Option.some.injEq] at hj
  exact hj.symm

/-! ## One line -/

theorem advance_break (w : Within) : advance w '\n' = .fail := by
  cases w with
  | text => rfl
  | escaped => rfl
  | hex high k v => rfl
  | half high => rfl
  | halfEscaped high => rfl

/-- No string goes over a line break. -/
theorem stringBody_break (s : List Char) : ∀ (w : Within) (a r : List Char), stringBody w s = some (a, r) →
    ∃ c, s = c ++ r ∧ '\n' ∉ c := by
  induction s with
  | nil =>
    intro w a r h
    cases h
  | cons d s ih =>
    intro w a r h
    have hd : d ≠ '\n' := by
      intro heq
      subst heq
      rw [stringBody, advance_break] at h
      cases h
    rw [stringBody] at h
    split at h
    · cases h
    · cases h
      exact ⟨[d], rfl, by simpa using hd.symm⟩
    · obtain ⟨⟨a', r'⟩, hrest, heq⟩ := Option.map_eq_some_iff.mp h
      cases heq
      obtain ⟨c, rfl, hc⟩ := ih _ _ _ hrest
      exact ⟨d :: c, rfl, by simp [hd.symm, hc]⟩

theorem quote_oneLine {L : Layout} (hL : L.Valid) (s : String) : '\n' ∉ quote L s := by
  obtain ⟨c, hc, hno⟩ := stringBody_break _ _ _ _ (stringBody_quote hL s.toList [])
  rw [List.append_nil] at hc
  show '\n' ∉ '"' :: (s.toList.flatMap L.escape ++ ['"'])
  rw [hc, List.mem_cons, not_or]
  exact ⟨by decide, hno⟩

theorem atom_oneLine {s : List Char} {j : Json} (h : Atom s j) : '\n' ∉ s := by
  intro hmem
  exact absurd (h.chars _ hmem) (by decide)

structure Layout.OneLine (L : Layout) : Prop where
  valid : L.Valid
  itemSep : '\n' ∉ L.itemSep
  keySep : '\n' ∉ L.keySep

theorem spaced_oneLine : spaced.OneLine := ⟨spaced_valid, by decide, by decide⟩

theorem compact_oneLine : compact.OneLine := ⟨compact_valid, by decide, by decide⟩

/-- Everything the writer puts down has the property. -/
structure Layout.All (L : Layout) (p : Char → Prop) : Prop where
  quote : ∀ s, ∀ c ∈ quote L s, p c
  atom : ∀ c, isAtomChar c = true → p c
  brackets : ∀ c ∈ "[]{}".toList, p c
  itemSep : ∀ c ∈ L.itemSep, p c
  keySep : ∀ c ∈ L.keySep, p c

theorem all_append {p : Char → Prop} {s t : List Char} (hs : ∀ c ∈ s, p c) (ht : ∀ c ∈ t, p c) : ∀ c ∈ s ++ t, p c :=
  List.forall_mem_append.mpr ⟨hs, ht⟩

theorem all_bracketed {L : Layout} {p : Char → Prop} (hL : L.All p) {l r : Char} {s : List Char} (hl : l ∈ "[]{}".toList)
    (hr : r ∈ "[]{}".toList) (hs : ∀ c ∈ s, p c) : ∀ c ∈ l :: s ++ [r], p c :=
  all_append (List.forall_mem_cons.mpr ⟨hL.brackets l hl, hs⟩) (List.forall_mem_singleton.mpr (hL.brackets r hr))

mutual

theorem write_all {L : Layout} {p : Char → Prop} (hL : L.All p) : ∀ j, ∀ c ∈ write L j, p c
  | .null => fun c hc => hL.atom c (List.all_eq_true.mp (by decide : "null".toList.all isAtomChar = true) c hc)
  | .bool true => fun c hc => hL.atom c (List.all_eq_true.mp (by decide : "true".toList.all isAtomChar = true) c hc)
  | .bool false => fun c hc => hL.atom c (List.all_eq_true.mp (by decide : "false".toList.all isAtomChar = true) c hc)
  | .int n => fun c hc => hL.atom c ((atom_int n).chars c hc)
  | .float x => fun c hc => hL.atom c ((atom_float x).chars c hc)
  | .str s => hL.quote s
  | .arr items => all_bracketed hL (by decide) (by decide) (writeItems_all hL items)
  | .obj fields => all_bracketed hL (by decide) (by decide) (writeFields_all hL fields)

theorem writeItems_all {L : Layout} {p : Char → Prop} (hL : L.All p) : ∀ js, ∀ c ∈ writeItems L js, p c
  | [] => List.forall_mem_nil _
  | [j] => write_all hL j
  | j :: j' :: js => all_append (all_append (write_all hL j) hL.itemSep) (writeItems_all hL (j' :: js))

theorem writeField_all {L : Layout} {p : Char → Prop} (hL : L.All p) : ∀ f, ∀ c ∈ writeField L f, p c
  | (k, j) => all_append (all_append (hL.quote k) hL.keySep) (write_all hL j)

theorem writeFields_all {L : Layout} {p : Char → Prop} (hL : L.All p) : ∀ fs, ∀ c ∈ writeFields L fs, p c
  | [] => List.forall_mem_nil _
  | [f] => writeField_all hL f
  | f :: f' :: fs => all_append (all_append (writeField_all hL f) hL.itemSep) (writeFields_all hL (f' :: fs))

end

theorem write_oneLine {L : Layout} (hL : L.OneLine) (j : Json) : '\n' ∉ write L j := by
  have hall : L.All fun c => c ≠ '\n' := by
    refine ⟨?_, ?_, ?_, ?_, ?_⟩
    · rintro s c hc rfl
      exact quote_oneLine hL.valid s hc
    · rintro c hc rfl
      exact absurd hc (by decide)
    · rintro c hc rfl
      exact absurd hc (by decide)
    · rintro c hc rfl
      exact hL.itemSep hc
    · rintro c hc rfl
      exact hL.keySep hc
  exact fun hmem => write_all hall j _ hmem rfl

/-! ## ASCII -/

/-- What `json.dumps` writes is printable ASCII. -/
def Printable (c : Char) : Prop := 0x20 ≤ c.toNat ∧ c.toNat ≤ 0x7e

instance (c : Char) : Decidable (Printable c) := inferInstanceAs (Decidable (_ ∧ _))

theorem printable_hex4 (n : Nat) : ∀ c ∈ hex4 n, Printable c := by
  have hdigit : ∀ m < 16, Printable (Nat.digitChar m) := by decide
  intro c hc
  obtain ⟨m, hm, rfl⟩ := List.mem_map.mp hc
  refine hdigit m ?_
  simp only [List.mem_cons, List.not_mem_nil, or_false] at hm
  omega

theorem printable_all {s : List Char} (h : s.all (fun c => decide (Printable c)) = true) : ∀ c ∈ s, Printable c :=
  fun c hc => of_decide_eq_true (List.all_eq_true.mp h c hc)

theorem printable_escape (c : Char) : ∀ d ∈ escape c, Printable d := by
  have hshort : ∀ s, shortEscape c = some s → ∀ d ∈ s, Printable d := by
    intro s hs
    unfold shortEscape at hs
    repeat' split at hs
    all_goals first
      | (obtain rfl := Option.some.inj hs; exact printable_all (by decide))
      | cases hs
  have hu : ∀ d ∈ ['\\', 'u'], Printable d := printable_all (by decide)
  unfold escape
  split
  · rename_i s hs
    exact hshort s hs
  · split
    · rename_i h
      exact List.forall_mem_singleton.mpr h
    · split
      · exact all_append hu (printable_hex4 _)
      · exact all_append (all_append (all_append hu (printable_hex4 _)) hu) (printable_hex4 _)

theorem printable_atom {c : Char} (h : isAtomChar c = true) : Printable c := by
  delta isAtomChar Char.isAlphanum Char.isAlpha Char.isUpper Char.isLower Char.isDigit at h
  simp only [Bool.or_eq_true, Bool.and_eq_true, decide_eq_true_eq, beq_iff_eq, UInt32.le_iff_toNat_le] at h
  rcases h with (((((h | h) | h) | rfl) | rfl) | rfl)
  · exact ⟨Nat.le_trans (by decide) h.1, Nat.le_trans h.2 (by decide)⟩
  · exact ⟨Nat.le_trans (by decide) h.1, Nat.le_trans h.2 (by decide)⟩
  · exact ⟨Nat.le_trans (by decide) h.1, Nat.le_trans h.2 (by decide)⟩
  · decide
  · decide
  · decide

theorem printable_dumps (j : Json) : ∀ c ∈ dumps j, Printable c := by
  refine write_all ⟨fun s => ?_, fun c hc => printable_atom hc, printable_all (by decide), printable_all (by decide),
    printable_all (by decide)⟩ j
  refine all_append (List.forall_mem_cons.mpr ⟨by decide, fun c hc => ?_⟩) (List.forall_mem_singleton.mpr (by decide))
  obtain ⟨d, -, hd⟩ := List.mem_flatMap.mp hc
  exact printable_escape d c hd

end Json

end Errand.Lib

import Errand.Lib.JsonRoundTrip

/-
  Errand.Lib.JsonTagged — a name, a colon and the text of a value.

  The name may hold anything, colons and quotes too. A colon within the text of a value
  stands in a string or before a space, so what is behind it is no text of a value: a
  reader that keeps track of the quotes finds them open at its end, or finds a space.

  Rule:
  - `tagged_injective`: the name and the value can be told from the text.
-/

namespace Errand.Lib

open Number

namespace Json

/-- `name + ":" + json.dumps(value)`. -/
def tagged (name : String) (j : Json) : List Char := name.toList ++ ':' :: dumps j

/-- Where a reader of a text is: in no string, behind a colon there, in a string, or behind
    a backslash in one. It has stopped at what no text of a value has outside its strings. -/
inductive Spot where
  | outside
  | colon
  | inside
  | escaped
  | stopped
  deriving DecidableEq

def Spot.next : Spot → Char → Spot
  | outside, c => if c = '"' then inside else if c = ':' then colon else if c = '\\' then stopped else outside
  | colon, c => if c = ' ' then outside else stopped
  | inside, c => if c = '"' then outside else if c = '\\' then escaped else inside
  | escaped, _ => inside
  | stopped, _ => stopped

def scan (q : Spot) (s : List Char) : Spot := s.foldl Spot.next q

theorem scan_append (q : Spot) (s t : List Char) : scan q (s ++ t) = scan (scan q s) t := List.foldl_append

theorem scan_stopped (s : List Char) : scan .stopped s = .stopped := by
  induction s with
  | nil => rfl
  | cons c s ih => exact ih

/-- Read as text it leaves no string open, read as part of a string it does not close it. -/
structure Balanced (s : List Char) : Prop where
  outside : scan .outside s = .outside
  inside : scan .inside s = .inside ∨ scan .inside s = .stopped

theorem Balanced.append {s t : List Char} (hs : Balanced s) (ht : Balanced t) : Balanced (s ++ t) := by
  constructor
  · rw [scan_append, hs.outside, ht.outside]
  · rw [scan_append]
    rcases hs.inside with h | h
    · rw [h]
      exact ht.inside
    · rw [h, scan_stopped]
      exact .inr rfl

/-- No quote, no colon and no backslash. -/
theorem balanced_plain {s : List Char} (h : ∀ c ∈ s, c ≠ '"' ∧ c ≠ ':' ∧ c ≠ '\\') : Balanced s := by
  have stays : scan .outside s = .outside ∧ scan .inside s = .inside := by
    induction s with
    | nil => exact ⟨rfl, rfl⟩
    | cons c s ih =>
      obtain ⟨hquote, hcolon, hback⟩ := h c (List.mem_cons_self ..)
      have ho : Spot.next .outside c = .outside := by simp [Spot.next, hquote, hcolon, hback]
      have hi : Spot.next .inside c = .inside := by simp [Spot.next, hquote, hback]
      show scan (Spot.next .outside c) s = .outside ∧ scan (Spot.next .inside c) s = .inside
      rw [ho, hi]
      exact ih fun d hd => h d (List.mem_cons_of_mem _ hd)
  exact ⟨stays.1, .inl stays.2⟩

theorem balanced_atom {s : List Char} {j : Json} (h : Atom s j) : Balanced s := by
  apply balanced_plain
  intro c hc
  have hatom := h.chars c hc
  refine ⟨?_, ?_, ?_⟩ <;> (rintro rfl; exact absurd hatom (by decide))

/-! ## Strings -/

theorem digitChar_plain : ∀ d < 16, Nat.digitChar d ≠ '"' ∧ Nat.digitChar d ≠ '\\' := by decide

theorem hex4_plain (n : Nat) : ∀ c ∈ hex4 n, c ≠ '"' ∧ c ≠ '\\' := by
  intro c hc
  obtain ⟨d, hd, rfl⟩ := List.mem_map.mp hc
  apply digitChar_plain
  simp only [List.mem_cons, List.not_mem_nil, or_false] at hd
  omega

theorem scan_hex4 (n : Nat) : scan .inside (hex4 n) = .inside := by
  have plain : ∀ s : List Char, (∀ c ∈ s, c ≠ '"' ∧ c ≠ '\\') → scan .inside s = .inside := by
    intro s
    induction s with
    | nil => intro _; rfl
    | cons c s ih =>
      intro h
      obtain ⟨hquote, hback⟩ := h c (List.mem_cons_self ..)
      have hi : Spot.next .inside c = .inside := by simp [Spot.next, hquote, hback]
      show scan (Spot.next .inside c) s = .inside
      rw [hi]
      exact ih fun d hd => h d (List.mem_cons_of_mem _ hd)
  exact plain _ (hex4_plain n)

/-- An escape is one plain character, or begins with a backslash and leaves the string open. -/
theorem escape_cases (c : Char) :
    (escape c = [c] ∧ c ≠ '"' ∧ c ≠ '\\') ∨ ∃ d s, escape c = '\\' :: d :: s ∧ scan .inside s = .inside := by
  unfold escape
  split
  · rename_i e h
    obtain ⟨d, rfl, -⟩ := shortEscape_some h
    exact .inr ⟨d, [], rfl, rfl⟩
  rename_i h
  split
  · exact .inl ⟨rfl, shortEscape_none h⟩
  split
  · exact .inr ⟨'u', _, rfl, scan_hex4 _⟩
  · refine .inr ⟨'u', hex4 _ ++ (['\\', 'u'] ++ hex4 _), by simp only [List.append_assoc]; rfl, ?_⟩
    rw [scan_append, scan_append, scan_hex4]
    exact scan_hex4 _

theorem scan_escape_inside (c : Char) : scan .inside (escape c) = .inside := by
  rcases escape_cases c with ⟨h, hquote, hback⟩ | ⟨d, s, h, hs⟩
  · rw [h]
    simp [scan, Spot.next, hquote, hback]
  · rw [h]
    exact hs

/-- In no string, or stopped. -/
def Spot.Out (q : Spot) : Prop := q = outside ∨ q = colon ∨ q = stopped

theorem scan_escape_out (c : Char) {q : Spot} (hq : q.Out) : (scan q (escape c)).Out := by
  rcases escape_cases c with ⟨h, hquote, hback⟩ | ⟨d, s, h, -⟩
  · rw [h]
    show (Spot.next q c).Out
    rcases hq with rfl | rfl | rfl
    · by_cases hcolon : c = ':'
      · exact .inr (.inl (by simp [Spot.next, hcolon]))
      · exact .inl (by simp [Spot.next, hquote, hback, hcolon])
    · by_cases hspace : c = ' '
      · exact .inl (by simp [Spot.next, hspace])
      · exact .inr (.inr (by simp [Spot.next, hspace]))
    · exact .inr (.inr rfl)
  · have hstop : Spot.next q '\\' = .stopped := by rcases hq with rfl | rfl | rfl <;> rfl
    rw [h]
    show (scan (Spot.next q '\\') (d :: s)).Out
    rw [hstop, scan_stopped]
    exact .inr (.inr rfl)

theorem balanced_quote (s : String) : Balanced (quote spaced s) := by
  have inside : ∀ cs : List Char, scan .inside (cs.flatMap escape) = .inside := by
    intro cs
    induction cs with
    | nil => rfl
    | cons c cs ih => rw [List.flatMap_cons, scan_append, scan_escape_inside, ih]
  have out : ∀ (cs : List Char) (q : Spot), q.Out → (scan q (cs.flatMap escape)).Out := by
    intro cs
    induction cs with
    | nil => intro q hq; exact hq
    | cons c cs ih =>
      intro q hq
      rw [List.flatMap_cons, scan_append]
      exact ih _ (scan_escape_out c hq)
  constructor
  · show scan .inside (s.toList.flatMap escape ++ ['"']) = .outside
    rw [scan_append, inside]
    rfl
  · show scan .outside (s.toList.flatMap escape ++ ['"']) = .inside ∨ scan .outside (s.toList.flatMap escape ++ ['"']) = .stopped
    rw [scan_append]
    rcases out s.toList .outside (.inl rfl) with h | h | h <;> rw [h]
    · exact .inl rfl
    · exact .inr rfl
    · exact .inr rfl

/-! ## Values -/

theorem balanced_itemSep : Balanced spaced.itemSep := ⟨rfl, .inl rfl⟩

theorem balanced_keySep : Balanced spaced.keySep := ⟨rfl, .inl rfl⟩

theorem balanced_bracket {o c : Char} (ho : Balanced [o]) (hc : Balanced [c]) {s : List Char} (hs : Balanced s) :
    Balanced (o :: s ++ [c]) := (ho.append hs).append hc

mutual

theorem balanced_write : ∀ j, Balanced (write spaced j)
  | .null => ⟨rfl, .inl rfl⟩
  | .bool true => ⟨rfl, .inl rfl⟩
  | .bool false => ⟨rfl, .inl rfl⟩
  | .int n => balanced_atom (atom_int n)
  | .float x => balanced_atom (atom_float x)
  | .str s => balanced_quote s
  | .arr items => balanced_bracket ⟨rfl, .inl rfl⟩ ⟨rfl, .inl rfl⟩ (balanced_writeItems items)
  | .obj fields => balanced_bracket ⟨rfl, .inl rfl⟩ ⟨rfl, .inl rfl⟩ (balanced_writeFields fields)

theorem balanced_writeItems : ∀ js, Balanced (writeItems spaced js)
  | [] => ⟨rfl, .inl rfl⟩
  | [j] => balanced_write j
  | j :: j' :: js => ((balanced_write j).append balanced_itemSep).append (balanced_writeItems (j' :: js))

theorem balanced_writeField : ∀ f, Balanced (writeField spaced f)
  | (k, j) => ((balanced_quote k).append balanced_keySep).append (balanced_write j)

theorem balanced_writeFields : ∀ fs, Balanced (writeFields spaced fs)
  | [] => ⟨rfl, .inl rfl⟩
  | [f] => balanced_writeField f
  | f :: f' :: fs => ((balanced_writeField f).append balanced_itemSep).append (balanced_writeFields (f' :: fs))

end

/-! ## Names -/

/-- What is behind a colon in the text of a value is no text of a value. -/
theorem dumps_ne_tagged (j j' : Json) (x : List Char) : dumps j ≠ x ++ ':' :: dumps j' := by
  intro h
  have hend : scan .outside (dumps j) = .outside := (balanced_write j).outside
  rw [h, scan_append] at hend
  -- the value behind the colon begins with no space
  have hcolon : scan .colon (write spaced j') = .stopped := by
    obtain ⟨c, s, hw, hws, -, -⟩ := write_head spaced j'
    have hc : c ≠ ' ' := by
      intro heq
      subst heq
      cases hws
    rw [hw]
    show scan (Spot.next .colon c) s = .stopped
    rw [Spot.next, if_neg hc, scan_stopped]
  have hinside : scan .inside (write spaced j') ≠ .outside := by
    rcases (balanced_write j').inside with hi | hi <;> rw [hi] <;> decide
  cases hq : scan .outside x with
  | outside =>
    rw [hq] at hend
    exact absurd (hend.symm.trans hcolon) (by decide)
  | colon =>
    rw [hq] at hend
    exact absurd (hend.symm.trans (scan_stopped _)) (by decide)
  | inside =>
    rw [hq] at hend
    exact hinside hend
  | escaped =>
    rw [hq] at hend
    exact hinside hend
  | stopped =>
    rw [hq] at hend
    exact absurd (hend.symm.trans (scan_stopped _)) (by decide)

theorem tagged_injective {name name' : String} {j j' : Json} (h : tagged name j = tagged name' j') :
    name = name' ∧ j = j' := by
  unfold tagged at h
  rcases List.append_eq_append_iff.mp h with ⟨x, hname, hrest⟩ | ⟨x, hname, hrest⟩
  · cases x with
    | nil =>
      rw [List.append_nil] at hname
      exact ⟨String.toList_injective hname.symm, write_injective spaced_valid (List.cons.inj hrest).2⟩
    | cons c x =>
      exact absurd (List.cons.inj hrest).2 (dumps_ne_tagged j j' x)
  · cases x with
    | nil =>
      rw [List.append_nil] at hname
      exact ⟨String.toList_injective hname, (write_injective spaced_valid (List.cons.inj hrest).2).symm⟩
    | cons c x =>
      exact absurd (List.cons.inj hrest).2 (dumps_ne_tagged j' j x)

end Json

end Errand.Lib

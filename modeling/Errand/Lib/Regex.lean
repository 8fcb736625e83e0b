import Mathlib.Data.List.Basic
import Mathlib.Data.List.Infix

/-
  Errand.Lib.Regex — patterns without alternation, and how Python's `re` matches them.

  A pattern is a sequence of items: a character of a class, a run of one class, greedy or
  lazy, and the two ends of a group; groups do not nest. A match tries the lengths of a run
  in the order `re` does, and the first way through counts. `search` is the first match in a
  text, `findAll` the groups of all matches from left to right, `count` is `str.count`.

  Rules:
  - `matchAt_lit`: a literal in front is matched one way only.
  - `matchAt_literal`, `matchAt_run`, `matchAt_greedy`, `matchAt_lazy`: one step of a match: a
    literal that is there, a run up to a character outside its class, a run that ends at its
    last way through or its first.
  - `matchAt_stop`, `search_stop`: no match goes past a character that no item takes.
  - `search_skip`, `search_hit`, `search_miss`, `findAll_behind`, `findAll_hit`: where a search
    looks.
  - `search_lit_none`: a literal is found where it stands.
  - `starts_within`: a literal whose first character does not come again does not begin in
    front of that character and end behind it.
-/

namespace Errand.Lib.Regex

abbrev Text := List Char

inductive Item where
  | char (p : Char → Bool)
  | greedy (p : Char → Bool)
  | lazy (p : Char → Bool)
  | opens
  | closes

abbrev Pattern := List Item

def lit (s : String) : Pattern := s.toList.map fun c => .char (· = c)

def any : Char → Bool := fun _ => true

/-- The length of the run of a class that a text begins with. -/
def run (p : Char → Bool) (s : Text) : Nat := (s.takeWhile p).length

/-- A match at the front: its groups, and what is left. `mark` is the text from the last
    group's beginning on. -/
def matchAt : Pattern → Text → List Text → Text → Option (List Text × Text)
  | [], _, groups, s => some (groups, s)
  | .char _ :: _, _, _, [] => none
  | .char p :: items, mark, groups, c :: s => if p c then matchAt items mark groups s else none
  | .greedy p :: items, mark, groups, s =>
    (List.range (run p s + 1)).reverse.findSome? fun n => matchAt items mark groups (s.drop n)
  | .lazy p :: items, mark, groups, s =>
    (List.range (run p s + 1)).findSome? fun n => matchAt items mark groups (s.drop n)
  | .opens :: items, _, groups, s => matchAt items s groups s
  | .closes :: items, mark, groups, s =>
    matchAt items mark (groups ++ [mark.take (mark.length - s.length)]) s

def matchFront (pat : Pattern) (s : Text) : Option (List Text × Text) := matchAt pat s [] s

def search (pat : Pattern) (s : Text) : Option (List Text) := s.tails.findSome? fun t => (matchFront pat t).map (·.1)

/-- The matches after `skip` characters that belong to the last one. -/
def findFrom (pat : Pattern) : Nat → Text → List (List Text)
  | 0, [] => ((matchFront pat []).map (·.1)).toList
  | _ + 1, [] => []
  | skip + 1, _ :: s => findFrom pat skip s
  | 0, c :: s =>
    match matchFront pat (c :: s) with
    | some (groups, rest) => groups :: findFrom pat (s.length - rest.length) s
    | none => findFrom pat 0 s

def findAll (pat : Pattern) (s : Text) : List (List Text) := findFrom pat 0 s

example : findAll (lit "<" ++ [.opens, .lazy any, .closes] ++ lit ">") "<a>b<>".toList = [["a".toList], [[]]] := by
  decide

/-- Occurrences from left to right, after `skip` characters of the last one. -/
def countFrom (t : Text) : Nat → Text → Nat
  | _, [] => 0
  | skip + 1, _ :: s => countFrom t skip s
  | 0, c :: s => if t.isPrefixOf (c :: s) then countFrom t (t.length - 1) s + 1 else countFrom t 0 s

/-- `s.count(t)`, for a text that is not empty. -/
def count (t s : Text) : Nat := countFrom t 0 s

/-! ## One item -/

section Item

variable (items : Pattern) (mark : Text) (groups : List Text)

theorem matchAt_char (p : Char → Bool) (c : Char) (s : Text) :
    matchAt (.char p :: items) mark groups (c :: s) = if p c then matchAt items mark groups s else none := rfl

theorem matchAt_charEnd (p : Char → Bool) : matchAt (.char p :: items) mark groups [] = none := rfl

theorem matchAt_greedyRun (p : Char → Bool) (s : Text) :
    matchAt (.greedy p :: items) mark groups s =
      (List.range (run p s + 1)).reverse.findSome? fun n => matchAt items mark groups (s.drop n) := rfl

theorem matchAt_lazyRun (p : Char → Bool) (s : Text) :
    matchAt (.lazy p :: items) mark groups s =
      (List.range (run p s + 1)).findSome? fun n => matchAt items mark groups (s.drop n) := rfl

theorem matchAt_closes (s : Text) :
    matchAt (.closes :: items) mark groups s =
      matchAt items mark (groups ++ [mark.take (mark.length - s.length)]) s := rfl

end Item

theorem matchAt_lit {t : Text} {pat : Pattern} {mark : Text} {groups : List Text} {s : Text} {r : List Text × Text}
    (h : matchAt ((t.map fun c => Item.char (· = c)) ++ pat) mark groups s = some r) :
    t.isPrefixOf s = true ∧ matchAt pat mark groups (s.drop t.length) = some r := by
  induction t generalizing s with
  | nil => exact ⟨rfl, h⟩
  | cons c t ih =>
    cases s with
    | nil => cases h
    | cons d s =>
      rw [List.map_cons, List.cons_append, matchAt_char] at h
      split at h
      · rename_i hd
        have heq : d = c := of_decide_eq_true hd
        obtain ⟨hpre, hrest⟩ := ih h
        refine ⟨?_, hrest⟩
        rw [List.isPrefixOf_cons_cons, heq, hpre]
        simp
      · cases h

/-! ## One step of a match -/

section Step

variable {pat : Pattern} {mark : Text} {groups : List Text}

theorem matchAt_chars (t s : Text) :
    matchAt ((t.map fun c => Item.char (· = c)) ++ pat) mark groups (t ++ s) = matchAt pat mark groups s := by
  induction t with
  | nil => rfl
  | cons c t ih =>
    rw [List.map_cons, List.cons_append, List.cons_append, matchAt_char, if_pos (by simp)]
    exact ih

theorem matchAt_literal (t : String) (s : Text) :
    matchAt (lit t ++ pat) mark groups (t.toList ++ s) = matchAt pat mark groups s := matchAt_chars t.toList s

theorem matchAt_last (t : String) (s : Text) : matchAt (lit t) mark groups (t.toList ++ s) = some (groups, s) := by
  have hlit := @matchAt_literal [] mark groups t s
  rwa [List.append_nil] at hlit

/-- What a group that ends here holds. -/
theorem group_text (u s : Text) : (u ++ s).take ((u ++ s).length - s.length) = u := by
  rw [List.length_append, Nat.add_sub_cancel, List.take_left]

theorem findSome_first {β : Type} {f : Nat → Option β} {k n : Nat} {r : β} (hn : n ≤ k) (hr : f n = some r)
    (hno : ∀ m < n, f m = none) : (List.range (k + 1)).findSome? f = some r := by
  induction k with
  | zero =>
    obtain rfl : n = 0 := by omega
    simp [hr]
  | succ k ih =>
    rw [List.range_succ, List.findSome?_append]
    by_cases hk : n = k + 1
    · subst hk
      have hnone : (List.range (k + 1)).findSome? f = none := by
        rw [List.findSome?_eq_none_iff]
        intro m hm
        exact hno m (List.mem_range.mp hm)
      simp [hnone, hr]
    · rw [ih (by omega), Option.some_or]

theorem findSome_last {β : Type} {f : Nat → Option β} {k n : Nat} {r : β} (hn : n ≤ k) (hr : f n = some r)
    (hno : ∀ m, n < m → m ≤ k → f m = none) : (List.range (k + 1)).reverse.findSome? f = some r := by
  induction k with
  | zero =>
    obtain rfl : n = 0 := by omega
    simp [hr]
  | succ k ih =>
    rw [List.range_succ, List.reverse_append, List.reverse_singleton, List.singleton_append, List.findSome?_cons]
    by_cases hk : n = k + 1
    · subst hk
      rw [hr]
    · rw [hno (k + 1) (by omega) (Nat.le_refl _)]
      exact ih (by omega) fun m hm hle => hno m hm (by omega)

/-- A run of a class up to a character outside it. -/
theorem run_append {p : Char → Bool} {w s : Text} (hw : ∀ c ∈ w, p c = true)
    (hs : ∀ c, s.head? = some c → p c = false) : run p (w ++ s) = w.length := by
  unfold run
  rw [List.takeWhile_append_of_pos hw]
  cases s with
  | nil => simp
  | cons c s => simp [hs c rfl]

theorem matchAt_run {p : Char → Bool} {w s : Text} {r : List Text × Text} (hw : ∀ c ∈ w, p c = true)
    (hs : ∀ c, s.head? = some c → p c = false) (h : matchAt pat mark groups s = some r) :
    matchAt (.greedy p :: pat) mark groups (w ++ s) = some r := by
  rw [matchAt_greedyRun, run_append hw hs]
  apply findSome_last (Nat.le_refl _)
  · rw [List.drop_left]
    exact h
  · intro m hm hle
    omega

theorem run_any (s : Text) : run any s = s.length := by
  induction s with
  | nil => rfl
  | cons c s ih => exact congrArg (· + 1) ih

/-- A greedy run of any characters that ends at its last way through. -/
theorem matchAt_greedy {w s : Text} {r : List Text × Text} (h : matchAt pat mark groups s = some r)
    (hno : ∀ k, 0 < k → matchAt pat mark groups (s.drop k) = none) :
    matchAt (.greedy any :: pat) mark groups (w ++ s) = some r := by
  rw [matchAt_greedyRun, run_any]
  refine findSome_last (n := w.length) ?_ ?_ ?_
  · rw [List.length_append]
    omega
  · rw [List.drop_left]
    exact h
  · intro m hm _
    obtain ⟨k, rfl⟩ := Nat.exists_eq_add_of_lt hm
    rw [show w.length + k + 1 = w.length + (k + 1) from rfl, List.drop_length_add_append]
    exact hno (k + 1) (Nat.succ_pos k)

/-- A lazy run of any characters that ends at its first way through. -/
theorem matchAt_lazy {w s : Text} {r : List Text × Text} (h : matchAt pat mark groups s = some r)
    (hno : ∀ k < w.length, matchAt pat mark groups (w.drop k ++ s) = none) :
    matchAt (.lazy any :: pat) mark groups (w ++ s) = some r := by
  rw [matchAt_lazyRun, run_any]
  refine findSome_first (n := w.length) ?_ ?_ ?_
  · rw [List.length_append]
    omega
  · rw [List.drop_left]
    exact h
  · intro m hm
    rw [List.drop_append_of_le_length (Nat.le_of_lt hm)]
    exact hno m hm

end Step

/-! ## Characters no item takes -/

/-- No item of the pattern takes the character. -/
def Stops (pat : Pattern) (x : Char) : Prop :=
  ∀ item ∈ pat, ∀ p, item = .char p ∨ item = .greedy p ∨ item = .lazy p → p x = false

theorem stops_append {a b : Pattern} {x : Char} (ha : Stops a x) (hb : Stops b x) : Stops (a ++ b) x := by
  intro item hitem
  rcases List.mem_append.mp hitem with hmem | hmem
  · exact ha item hmem
  · exact hb item hmem

theorem stops_lit {t : String} {x : Char} (h : x ∉ t.toList) : Stops (lit t) x := by
  intro item hitem p hp
  obtain ⟨c, hc, rfl⟩ := List.mem_map.mp hitem
  rcases hp with hp | hp | hp
  · cases hp
    refine decide_eq_false ?_
    intro hx
    exact h (hx ▸ hc)
  · cases hp
  · cases hp

theorem stops_greedy {q : Char → Bool} {x : Char} (h : q x = false) : Stops [.greedy q] x := by
  intro item hitem p hp
  obtain rfl := List.mem_singleton.mp hitem
  rcases hp with hp | hp | hp
  · cases hp
  · cases hp
    exact h
  · cases hp

theorem stops_char {q : Char → Bool} {x : Char} (h : q x = false) : Stops [.char q] x := by
  intro item hitem p hp
  obtain rfl := List.mem_singleton.mp hitem
  rcases hp with hp | hp | hp
  · cases hp
    exact h
  · cases hp
  · cases hp

theorem stops_group {pat : Pattern} {x : Char} (h : Stops pat x) : Stops (.opens :: pat ++ [.closes]) x := by
  have hmark : ∀ item, item = Item.opens ∨ item = .closes → Stops [item] x := by
    intro item hitem i hi p hp
    obtain rfl := List.mem_singleton.mp hi
    rcases hitem with rfl | rfl <;> rcases hp with hp | hp | hp <;> cases hp
  exact stops_append (stops_append (hmark .opens (.inl rfl)) h) (hmark .closes (.inr rfl))

theorem run_stop {p : Char → Bool} {x : Char} (hx : p x = false) (s y : Text) : run p (s ++ x :: y) = run p s := by
  unfold run
  induction s with
  | nil => simp [hx]
  | cons c s ih =>
    rw [List.cons_append, List.takeWhile_cons, List.takeWhile_cons]
    split
    · exact congrArg (· + 1) ih
    · rfl

theorem run_le (p : Char → Bool) (s : Text) : run p s ≤ s.length := (List.takeWhile_prefix p).length_le

/-- A match does not go past a character no item takes: it is the match of what stands in
    front of it. -/
theorem matchAt_stop {pat : Pattern} {x : Char} (h : Stops pat x) (mark : Text) (groups : List Text) (s y : Text) :
    matchAt pat (mark ++ x :: y) groups (s ++ x :: y) =
      (matchAt pat mark groups s).map fun r => (r.1, r.2 ++ x :: y) := by
  induction pat generalizing mark groups s with
  | nil => rfl
  | cons item pat ih =>
    obtain ⟨hitem, hrest⟩ := List.forall_mem_cons.mp h
    have ih := ih hrest
    -- the lengths of a run, one by one
    have hruns : ∀ lengths : List Nat, (∀ n ∈ lengths, n ≤ s.length) →
        lengths.findSome? (fun n => matchAt pat (mark ++ x :: y) groups ((s ++ x :: y).drop n)) =
          (lengths.findSome? fun n => matchAt pat mark groups (s.drop n)).map fun r => (r.1, r.2 ++ x :: y) := by
      intro lengths hle
      induction lengths with
      | nil => rfl
      | cons n lengths ihn =>
        obtain ⟨hn, hlengths⟩ := List.forall_mem_cons.mp hle
        rw [List.findSome?_cons, List.findSome?_cons, List.drop_append_of_le_length hn, ih]
        cases matchAt pat mark groups (s.drop n) with
        | none => exact ihn hlengths
        | some r => rfl
    have hle : ∀ {p : Char → Bool} {n : Nat}, n ∈ List.range (run p s + 1) → n ≤ s.length := by
      intro p n hn
      exact Nat.le_trans (Nat.lt_succ_iff.mp (List.mem_range.mp hn)) (run_le p s)
    cases item with
    | char p =>
      have hx := hitem p (.inl rfl)
      cases s with
      | nil =>
        rw [List.nil_append, matchAt_char, matchAt_charEnd, hx]
        rfl
      | cons c s =>
        rw [List.cons_append, matchAt_char, matchAt_char]
        split
        · exact ih mark groups s
        · rfl
    | greedy p =>
      rw [matchAt_greedyRun, matchAt_greedyRun, run_stop (hitem p (.inr (.inl rfl)))]
      exact hruns _ fun n hn => hle (List.mem_reverse.mp hn)
    | lazy p =>
      rw [matchAt_lazyRun, matchAt_lazyRun, run_stop (hitem p (.inr (.inr rfl)))]
      exact hruns _ fun n hn => hle hn
    | opens => exact ih s groups s
    | closes =>
      rw [matchAt_closes, matchAt_closes]
      have hgroup : (mark ++ x :: y).take ((mark ++ x :: y).length - (s ++ x :: y).length) =
          mark.take (mark.length - s.length) := by
        rw [List.length_append, List.length_append, Nat.add_sub_add_right,
          List.take_append_of_le_length (Nat.sub_le _ _)]
      rw [hgroup]
      exact ih mark _ s

/-! ## Where a search looks -/

theorem search_cons (pat : Pattern) (c : Char) (s : Text) :
    search pat (c :: s) = ((matchFront pat (c :: s)).map (·.1)).or (search pat s) := by
  have htails : (c :: s).tails = (c :: s) :: s.tails := rfl
  unfold search
  rw [htails, List.findSome?_cons]
  cases (matchFront pat (c :: s)).map (·.1) with
  | none => rfl
  | some groups => rfl

/-- The pattern begins with a character of its own. -/
def Begins (pat : Pattern) (x : Char) : Prop := ∃ rest, pat = .char (· = x) :: rest

section Head

variable {pat : Pattern} {x : Char} (hp : Begins pat x)

include hp

/-- A match begins with the character the pattern does. -/
theorem matchFront_other {c : Char} (h : c ≠ x) (s : Text) : matchFront pat (c :: s) = none := by
  obtain ⟨rest, rfl⟩ := hp
  rw [matchFront, matchAt_char, if_neg (by simpa using h)]

theorem search_nil : search pat [] = none := by
  obtain ⟨rest, rfl⟩ := hp
  rfl

theorem search_skip {w : Text} (h : x ∉ w) (s : Text) : search pat (w ++ s) = search pat s := by
  induction w with
  | nil => rfl
  | cons c w ih =>
    rw [List.mem_cons, not_or] at h
    rw [List.cons_append, search_cons, matchFront_other hp (Ne.symm h.1), ih h.2]
    rfl

theorem search_none {w : Text} (h : x ∉ w) : search pat w = none := by
  have hskip := search_skip hp h []
  rwa [List.append_nil, search_nil hp] at hskip

end Head

theorem search_hit {pat : Pattern} {s : Text} {r : List Text × Text} (hs : s ≠ []) (h : matchFront pat s = some r) :
    search pat s = some r.1 := by
  obtain ⟨c, s, rfl⟩ := List.exists_cons_of_ne_nil hs
  rw [search_cons, h]
  rfl

theorem search_miss {pat : Pattern} {c : Char} {s : Text} (h : matchFront pat (c :: s) = none) :
    search pat (c :: s) = search pat s := by
  rw [search_cons, h]
  rfl

/-- A literal is found where it stands. -/
theorem search_lit_none {t : String} (s : Text) : search (lit t) s = none ↔ ¬ t.toList <:+: s := by
  constructor
  · intro hnone hin
    obtain ⟨a, b, rfl⟩ := hin
    unfold search at hnone
    rw [List.findSome?_eq_none_iff] at hnone
    have hat := hnone (t.toList ++ b) (by
      rw [List.mem_tails, List.append_assoc]
      exact List.suffix_append a _)
    rw [show matchFront (lit t) (t.toList ++ b) = some ([], b) from matchAt_last t b] at hat
    cases hat
  · intro hout
    unfold search
    rw [List.findSome?_eq_none_iff]
    intro u hu
    rw [Option.map_eq_none_iff]
    by_contra hsome
    obtain ⟨r, hr⟩ := Option.ne_none_iff_exists'.mp hsome
    unfold matchFront at hr
    rw [← List.append_nil (lit t)] at hr
    have hpre := List.isPrefixOf_iff_prefix.mp (matchAt_lit hr).1
    exact hout (hpre.isInfix.trans ((List.mem_tails u s).mp hu).isInfix)

/-- A literal whose first character does not come again begins in front of that character
    only where it also ends in front of it. -/
theorem starts_within {x : Char} {t u s : Text} (ht : x ∉ t) (hu : u ≠ []) (h : x :: t <+: u ++ x :: s) :
    x :: t <+: u := by
  by_cases hlen : (x :: t).length ≤ u.length
  · exact List.prefix_of_prefix_length_le h (List.prefix_append u _) hlen
  · exfalso
    -- otherwise the character in question is one of the literal's others
    have hfront : u ++ [x] <+: u ++ x :: s := ⟨s, by simp⟩
    have hinner : u ++ [x] <+: x :: t := by
      refine List.prefix_of_prefix_length_le hfront h ?_
      rw [List.length_append, List.length_singleton]
      omega
    obtain ⟨c, u, rfl⟩ := List.exists_cons_of_ne_nil hu
    rw [List.cons_append, List.cons_prefix_cons] at hinner
    exact ht (hinner.2.subset (by simp))

/-- No literal is matched in front of its own first character, in a text it does not stand in. -/
theorem literal_misses {tag : String} {x : Char} {t w s : Text} (htag : tag.toList = x :: t) (ht : x ∉ t)
    (hw : ¬ tag.toList <:+: w) (pat : Pattern) (mark : Text) (groups : List Text) {k : Nat} (hk : k < w.length) :
    matchAt (lit tag ++ pat) mark groups (w.drop k ++ x :: s) = none := by
  by_contra hsome
  obtain ⟨r, hr⟩ := Option.ne_none_iff_exists'.mp hsome
  have hpre := List.isPrefixOf_iff_prefix.mp (matchAt_lit hr).1
  have hrest : w.drop k ≠ [] := by
    intro hnil
    have hlen := List.drop_eq_nil_iff.mp hnil
    omega
  rw [htag] at hpre hw
  exact hw ((starts_within ht hrest hpre).isInfix.trans (List.drop_suffix k w).isInfix)

/-- A search looks in front of a character no item takes, and then behind it. -/
theorem search_stop {pat : Pattern} {x : Char} (h : Stops pat x) (hempty : search pat [] = none) (s y : Text) :
    search pat (s ++ x :: y) = (search pat s).or (search pat y) := by
  have hfront : ∀ t, (matchFront pat (t ++ x :: y)).map (·.1) = (matchFront pat t).map (·.1) := by
    intro t
    unfold matchFront
    rw [matchAt_stop h, Option.map_map]
    rfl
  have hnil : (matchFront pat []).map (·.1) = none := by
    unfold search at hempty
    simpa using hempty
  induction s with
  | nil =>
    have hx := hfront []
    rw [List.nil_append] at hx
    rw [List.nil_append, search_cons, hx, hnil, hempty]
  | cons c s ih =>
    have hc := hfront (c :: s)
    rw [List.cons_append] at hc
    rw [List.cons_append, search_cons, hc, ih, search_cons, Option.or_assoc]

/-! ## All matches -/

theorem findFrom_skip (pat : Pattern) (u s : Text) : findFrom pat u.length (u ++ s) = findAll pat s := by
  induction u with
  | nil => rfl
  | cons c u ih => exact ih

/-- All matches begin behind a text at whose places none does. -/
theorem findAll_behind {pat : Pattern} {w s : Text} (h : ∀ k < w.length, matchFront pat (w.drop k ++ s) = none) :
    findAll pat (w ++ s) = findAll pat s := by
  induction w with
  | nil => rfl
  | cons c w ih =>
    have hhere := h 0 (Nat.succ_pos _)
    rw [List.drop_zero, List.cons_append] at hhere
    unfold findAll at ih ⊢
    rw [List.cons_append, findFrom, hhere]
    exact ih fun k hk => h (k + 1) (Nat.succ_lt_succ hk)

theorem findAll_none {pat : Pattern} {w : Text} (hempty : matchFront pat [] = none)
    (h : ∀ k < w.length, matchFront pat (w.drop k) = none) : findAll pat w = [] := by
  have hbehind := @findAll_behind pat w [] fun k hk => by
    rw [List.append_nil]
    exact h k hk
  rw [List.append_nil] at hbehind
  rw [hbehind]
  unfold findAll
  rw [findFrom, hempty]
  rfl

theorem findAll_hit {pat : Pattern} {c : Char} {u s : Text} {groups : List Text}
    (h : matchFront pat (c :: (u ++ s)) = some (groups, s)) :
    findAll pat (c :: (u ++ s)) = groups :: findAll pat s := by
  unfold findAll
  rw [findFrom, h]
  simp only
  rw [List.length_append, Nat.add_sub_cancel]
  exact congrArg (groups :: ·) (findFrom_skip pat u s)

end Errand.Lib.Regex

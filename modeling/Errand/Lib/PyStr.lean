import Mathlib.Data.List.TakeWhile
import Mathlib.Algebra.GroupWithZero.Nat

/-
  Errand.Lib.PyStr — the parts of Python's `str` that parsers lean on: which characters
  are white space (`str.isspace`, and `\s` in a pattern) or decimal digits (`\d`), strip,
  lower, and the value of a digit string.

  `takeBytes n` is `s.encode()[:n].decode(errors="ignore")`: the characters whose bytes fit.

  Proved:
  - `splitRun_append`: a run of one character class is split off whole, so a pattern made
    of runs of disjoint classes matches one way only.
  - `takeBytes_prefix`, `takeBytes_append_iff`: which prefixes survive a cut by bytes.
  - `replace_skip`, `replace_hit`: a text without the pattern's first character stays, and the
    pattern is replaced.
  - `rstrip_spec`, `strip_append`: strip takes off the white space behind a text, and no more;
    `strip_strip`, `strip_spec`.
-/

namespace Errand.Lib.PyStr

def isSpace (c : Char) : Bool :=
  let n := c.toNat
  (0x9 ≤ n && n ≤ 0xd) || (0x1c ≤ n && n ≤ 0x20) || n == 0x85 || n == 0xa0 || n == 0x1680 ||
    (0x2000 ≤ n && n ≤ 0x200a) || n == 0x2028 || n == 0x2029 || n == 0x202f || n == 0x205f || n == 0x3000

/-- The zeros of the decimal digit blocks of Unicode 15.1; each block is ten characters. -/
def zeros : List Nat :=
  [0x30, 0x660, 0x6f0, 0x7c0, 0x966, 0x9e6, 0xa66, 0xae6, 0xb66, 0xbe6, 0xc66, 0xce6, 0xd66, 0xde6, 0xe50, 0xed0,
   0xf20, 0x1040, 0x1090, 0x17e0, 0x1810, 0x1946, 0x19d0, 0x1a80, 0x1a90, 0x1b50, 0x1bb0, 0x1c40, 0x1c50, 0xa620,
   0xa8d0, 0xa900, 0xa9d0, 0xa9f0, 0xaa50, 0xabf0, 0xff10, 0x104a0, 0x10d30, 0x11066, 0x110f0, 0x11136, 0x111d0,
   0x112f0, 0x11450, 0x114d0, 0x11650, 0x116c0, 0x11730, 0x118e0, 0x11950, 0x11c50, 0x11d50, 0x11da0, 0x11f50,
   0x16a60, 0x16ac0, 0x16b50, 0x1d7ce, 0x1d7d8, 0x1d7e2, 0x1d7ec, 0x1d7f6, 0x1e140, 0x1e2f0, 0x1e4f0, 0x1e950,
   0x1fbf0]

def digit? (c : Char) : Option Nat :=
  (zeros.find? fun z => z ≤ c.toNat && c.toNat < z + 10).map fun z => c.toNat - z

def isDigit (c : Char) : Bool := (digit? c).isSome

def isLowerAscii (c : Char) : Bool := 'a' ≤ c && c ≤ 'z'

/-- `str.lower` on one character. Only the capitals of ASCII, the Kelvin sign and the
    dotted capital I have ASCII letters in their lower case; other characters stay
    outside ASCII and are left as they are. -/
def lowerChar (c : Char) : List Char :=
  if 'A' ≤ c && c ≤ 'Z' then [Char.ofNat (c.toNat + 32)]
  else if c.toNat == 0x212a then ['k']
  else if c.toNat == 0x130 then ['i', Char.ofNat 0x307]
  else [c]

def lower (s : List Char) : List Char := s.flatMap lowerChar

def strip (s : List Char) : List Char := ((s.dropWhile isSpace).reverse.dropWhile isSpace).reverse

def rstrip (s : List Char) : List Char := (s.reverse.dropWhile isSpace).reverse

/-- `int(s)` for a string of digits: its value in base ten. -/
def digitsValue (s : List Char) : Nat := s.foldl (fun n c => 10 * n + (digit? c).getD 0) 0

/-- Digits with single underscores between them; whether the last character was a digit. -/
def intDigits : Bool → List Char → Bool
  | afterDigit, [] => afterDigit
  | afterDigit, c :: s => if c = '_' then afterDigit && intDigits false s else isDigit c && intDigits true s

/-- `sys.get_int_max_str_digits()`. -/
def maxStrDigits : Nat := 4300

def nat? (s : List Char) : Option Nat :=
  let digits := s.filter (· ≠ '_')
  if intDigits false s && decide (digits.length ≤ maxStrDigits) then some (digitsValue digits) else none

/-- `int(s)`; none is its ValueError. -/
def int? (s : List Char) : Option Int :=
  match strip s with
  | '+' :: s => (nat? s).map fun n => (n : Int)
  | '-' :: s => (nat? s).map fun n => -(n : Int)
  | s => (nat? s).map fun n => (n : Int)

/-- `s.replace(pat, rep)` after `skip` characters, for a pattern that is not empty. -/
def replaceFrom (pat rep : List Char) : Nat → List Char → List Char
  | _, [] => []
  | skip + 1, _ :: s => replaceFrom pat rep skip s
  | 0, c :: s =>
    if pat.isPrefixOf (c :: s) then rep ++ replaceFrom pat rep (pat.length - 1) s else c :: replaceFrom pat rep 0 s

def replace (pat rep s : List Char) : List Char := replaceFrom pat rep 0 s

example : (int? " -1_0 ".toList, int? "1__0".toList, replace "ab".toList "c".toList "aababd".toList) =
    (some (-10), none, "accd".toList) := by decide

/-- What does not begin the pattern stays. -/
theorem replace_step {pat : List Char} {c : Char} {s : List Char} (h : pat.isPrefixOf (c :: s) = false)
    (rep : List Char) : replace pat rep (c :: s) = c :: replace pat rep s := by
  rw [replace, replaceFrom, if_neg (by rw [h]; exact Bool.false_ne_true)]
  rfl

theorem replace_skip {p : Char} {a : List Char} (h : ∀ c ∈ a, c ≠ p) (pat rep b : List Char) :
    replace (p :: pat) rep (a ++ b) = a ++ replace (p :: pat) rep b := by
  induction a with
  | nil => rfl
  | cons c a ih =>
    have hc : (p :: pat).isPrefixOf (c :: (a ++ b)) = false := by
      rw [List.isPrefixOf_cons_cons, beq_eq_false_iff_ne.mpr (h c List.mem_cons_self).symm, Bool.false_and]
    rw [List.cons_append, replace_step hc, ih fun d hd => h d (List.mem_cons_of_mem _ hd)]
    rfl

theorem replaceFrom_length (pat rep a s : List Char) :
    replaceFrom pat rep a.length (a ++ s) = replaceFrom pat rep 0 s := by
  induction a with
  | nil => rfl
  | cons c a ih => exact ih

theorem replace_hit {pat : List Char} (hne : pat ≠ []) (rep s : List Char) :
    replace pat rep (pat ++ s) = rep ++ replace pat rep s := by
  obtain ⟨p, pat, rfl⟩ := List.exists_cons_of_ne_nil hne
  have hpre : (p :: pat).isPrefixOf (p :: (pat ++ s)) = true :=
    List.isPrefixOf_iff_prefix.mpr (List.prefix_append (p :: pat) s)
  rw [replace, List.cons_append, replaceFrom, if_pos hpre]
  exact congrArg (rep ++ ·) (replaceFrom_length (p :: pat) rep pat s)

/-- The longest run of `p` a string starts with, and the rest. -/
def splitRun (p : Char → Bool) (s : List Char) : List Char × List Char := (s.takeWhile p, s.dropWhile p)

def stripString (s : String) : String := String.ofList (strip s.toList)

theorem splitRun_append {p : Char → Bool} {a b : List Char} (ha : ∀ c ∈ a, p c = true)
    (hb : ∀ c, b.head? = some c → p c = false) : splitRun p (a ++ b) = (a, b) := by
  induction a with
  | nil =>
    cases b with
    | nil => rfl
    | cons c b => simp [splitRun, hb c rfl]
  | cons c a ih =>
    have hc := ha c (List.mem_cons_self ..)
    have ih := ih fun d hd => ha d (List.mem_cons_of_mem _ hd)
    simp only [splitRun, Prod.mk.injEq] at ih ⊢
    simp [hc, ih.1, ih.2]

/-! ## Bytes -/

def utf8Size (s : List Char) : Nat := (s.map Char.utf8Size).sum

def takeBytes : Nat → List Char → List Char
  | _, [] => []
  | n, c :: s => if c.utf8Size ≤ n then c :: takeBytes (n - c.utf8Size) s else []

theorem utf8Size_append (s t : List Char) : utf8Size (s ++ t) = utf8Size s + utf8Size t := by
  simp [utf8Size]

theorem takeBytes_prefix (n : Nat) (s : List Char) : takeBytes n s <+: s := by
  induction s generalizing n with
  | nil => exact List.prefix_rfl
  | cons c s ih =>
    rw [takeBytes]
    split
    · exact List.cons_prefix_cons.mpr ⟨rfl, ih _⟩
    · exact List.nil_prefix

/-- A cut leaves the first part of a text whole exactly if its bytes fit. -/
theorem takeBytes_append_iff (n : Nat) (s t : List Char) : s <+: takeBytes n (s ++ t) ↔ utf8Size s ≤ n := by
  induction s generalizing n with
  | nil => simp [utf8Size]
  | cons c s ih =>
    have hsize : utf8Size (c :: s) = c.utf8Size + utf8Size s := by simp [utf8Size]
    rw [List.cons_append, takeBytes, hsize]
    split
    · rename_i h
      rw [List.cons_prefix_cons, and_iff_right rfl, ih]
      omega
    · rename_i h
      rw [List.prefix_nil, iff_false_left (List.cons_ne_nil _ _)]
      omega

/-! ## Strip -/

theorem dropWhile_head {p : Char → Bool} {s : List Char} (h : ∀ c, s.head? = some c → p c = false) :
    s.dropWhile p = s := by
  cases s with
  | nil => rfl
  | cons c s => rw [List.dropWhile_cons_of_neg (by rw [h c rfl]; decide)]

theorem dropWhile_reverse {p : Char → Bool} {s ws : List Char} (hws : ∀ c ∈ ws, p c = true)
    (hlast : ∀ c, s.getLast? = some c → p c = false) : (s ++ ws).reverse.dropWhile p = s.reverse := by
  rw [List.reverse_append, List.dropWhile_append_of_pos]
  · apply dropWhile_head
    intro c hc
    rw [List.head?_reverse] at hc
    exact hlast c hc
  · intro c hc
    exact hws c (List.mem_reverse.mp hc)

/-- Strip takes off the white space behind a text that neither begins nor ends with any. -/
theorem strip_append {s ws : List Char} (hfirst : ∀ c, s.head? = some c → isSpace c = false)
    (hlast : ∀ c, s.getLast? = some c → isSpace c = false) (hws : ∀ c ∈ ws, isSpace c = true) : strip (s ++ ws) = s := by
  cases s with
  | nil =>
    rw [strip, List.nil_append, List.dropWhile_eq_nil_iff.mpr hws]
    rfl
  | cons c s =>
    have hfront : (c :: s ++ ws).dropWhile isSpace = c :: s ++ ws := by
      apply dropWhile_head
      intro d hd
      exact hfirst d hd
    rw [strip, hfront, dropWhile_reverse hws hlast, List.reverse_reverse]

/-- What `rstrip` takes off, and what it leaves. -/
theorem rstrip_spec (s : List Char) :
    ∃ ws, s = rstrip s ++ ws ∧ (∀ c ∈ ws, isSpace c = true) ∧ ∀ c, (rstrip s).getLast? = some c → isSpace c = false := by
  refine ⟨(s.reverse.takeWhile isSpace).reverse, ?_, ?_, ?_⟩
  · rw [rstrip, ← List.reverse_append, List.takeWhile_append_dropWhile, List.reverse_reverse]
  · intro c hc
    exact List.mem_takeWhile_imp (List.mem_reverse.mp hc)
  · intro c hc
    rw [rstrip, List.getLast?_reverse] at hc
    have hfirst := List.head?_dropWhile_not isSpace s.reverse
    rw [hc] at hfirst
    exact hfirst

theorem strip_subset (s : List Char) : strip s ⊆ s := by
  intro c hc
  rw [strip, List.mem_reverse] at hc
  have hback := (List.dropWhile_suffix isSpace).subset hc
  rw [List.mem_reverse] at hback
  exact (List.dropWhile_suffix isSpace).subset hback

theorem strip_within (s : List Char) : strip s <:+: s := by
  unfold strip
  rw [← List.reverse_infix, List.reverse_reverse]
  refine (List.dropWhile_suffix isSpace).isInfix.trans ?_
  rw [List.reverse_infix]
  exact (List.dropWhile_suffix isSpace).isInfix

/-! A stripped text begins and ends with no white space. -/

theorem strip_head {s : List Char} : ∀ c, (strip s).head? = some c → isSpace c = false := by
  intro c hc
  have hhead := List.head?_dropWhile_not isSpace s
  have hpre : strip s <+: s.dropWhile isSpace := by
    unfold strip
    rw [← List.reverse_suffix, List.reverse_reverse]
    exact List.dropWhile_suffix isSpace
  obtain ⟨t, ht⟩ := hpre
  rw [← ht, List.head?_append, hc] at hhead
  exact hhead

theorem strip_last {s : List Char} : ∀ c, (strip s).getLast? = some c → isSpace c = false := by
  intro c hc
  rw [strip, List.getLast?_reverse] at hc
  have hhead := List.head?_dropWhile_not isSpace (s.dropWhile isSpace).reverse
  rw [hc] at hhead
  exact hhead

theorem strip_strip (s : List Char) : strip (strip s) = strip s := by
  have h : strip (strip s ++ []) = strip s := strip_append strip_head strip_last nofun
  rwa [List.append_nil] at h

theorem stripString_stripString (s : String) : stripString (stripString s) = stripString s := by
  unfold stripString
  rw [String.toList_ofList, strip_strip]

theorem strip_front {ws : List Char} (h : ∀ c ∈ ws, isSpace c = true) (s : List Char) : strip (ws ++ s) = strip s := by
  rw [strip, List.dropWhile_append_of_pos h]
  rfl

theorem strip_cons {c : Char} (h : isSpace c = true) (s : List Char) : strip (c :: s) = strip s :=
  strip_front (List.forall_mem_singleton.mpr h) s

/-- What stands around a stripped text is white space. -/
theorem strip_spec (s : List Char) :
    ∃ front back, s = front ++ strip s ++ back ∧ (∀ c ∈ front, isSpace c = true) ∧ ∀ c ∈ back, isSpace c = true := by
  obtain ⟨back, hback, hspace, -⟩ := rstrip_spec (s.dropWhile isSpace)
  refine ⟨s.takeWhile isSpace, back, ?_, fun c hc => List.mem_takeWhile_imp hc, hspace⟩
  have hstrip : rstrip (s.dropWhile isSpace) = strip s := rfl
  rw [hstrip] at hback
  rw [List.append_assoc, ← hback, List.takeWhile_append_dropWhile]

theorem strip_around {front back m : List Char} (hfront : ∀ c ∈ front, isSpace c = true)
    (hback : ∀ c ∈ back, isSpace c = true) (hm : strip m = m) : strip (front ++ m ++ back) = m := by
  rw [List.append_assoc, strip_front hfront]
  refine strip_append ?_ ?_ hback
  · rw [← hm]
    exact strip_head
  · rw [← hm]
    exact strip_last

end Errand.Lib.PyStr

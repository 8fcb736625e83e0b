import Errand.Lib.JsonDecoder
import Errand.Runner.Messages

/-
  Errand.Runner.TruncatedArguments — argument texts that were cut off, and closed again
  (`_repair_truncated_json`, task-runner/main.py).

  The two scanners of the repair see quotes, backslashes and brackets; the decoder of
  `json.loads` sees the grammar. As long as the decoder has not failed, they agree on whether
  a string is open and on which brackets are (`Agrees`). But an escape that is cut off cannot
  be closed with a quote: behind a backslash the quote is escaped, and among the digits of
  `\u` it is no digit.

  Proved: `cut_is_repaired_iff` — what the repair returns is JSON and begins with the text it was
  given; and a JSON text cut inside a string value is repaired exactly if the cut is not inside
  an escape. `a_cut_escape_is_not_repaired` is the rest.
-/

namespace Errand.Runner.TruncatedArguments

open Errand.Lib Errand.Lib.JsonDecoder Errand.Runner.Messages

/-! ## The scanners -/

inductive Mode where
  | outside
  | inside
  /-- Behind a backslash in a string. -/
  | escaped
  deriving DecidableEq, Repr

structure Scan where
  mode : Mode
  stack : List Char

/-- One character of both scanners. -/
def scanStep (s : Scan) (c : Char) : Scan :=
  match s.mode with
  | .escaped => { s with mode := .inside }
  | .inside => if c = '"' then { s with mode := .outside } else if c = '\\' then { s with mode := .escaped } else s
  | .outside =>
    if c = '"' then { s with mode := .inside }
    else if c = '\x7b' then { s with stack := '\x7d' :: s.stack }
    else if c = '[' then { s with stack := ']' :: s.stack }
    else if (c = '\x7d' ∨ c = ']') ∧ s.stack.head? = some c then { s with stack := s.stack.tail }
    else s

def scan (s : Scan) (cs : List Char) : Scan := cs.foldl scanStep s

def modeOf (inString : Bool) : Mode := if inString then .inside else .outside

/-- A character that is no backslash in a string turns the mode only if it is a quote. -/
theorem scanStep_mode {inString : Bool} {c : Char} (hc : inString = true → c ≠ '\\') (stack : List Char) :
    (scanStep ⟨modeOf inString, stack⟩ c).mode = modeOf (if c = '"' then !inString else inString) := by
  cases inString with
  | true =>
    by_cases hq : c = '"'
    · simp [scanStep, modeOf, hq]
    · simp [scanStep, modeOf, hq, hc rfl]
  | false =>
    by_cases hq : c = '"'
    · simp [scanStep, modeOf, hq]
    · unfold scanStep modeOf
      simp only [if_neg hq, Bool.false_eq_true, if_false]
      split
      · rfl
      · split
        · rfl
        · split <;> rfl

theorem endsInString_scan (inString : Bool) (stack cs : List Char) :
    endsInString inString cs = decide ((scan ⟨modeOf inString, stack⟩ cs).mode ≠ .outside) := by
  induction inString, cs using endsInString.induct generalizing stack with
  | case1 inString => cases inString <;> rfl
  | case2 => rfl
  | case3 c cs ih => exact ih stack
  | case4 inString c cs h₁ h₂ ih =>
    have hc : inString = true → c ≠ '\\' := by
      intro hin hback
      cases cs with
      | nil => exact h₁ hin hback rfl
      | cons d cs => exact h₂ d cs hin hback rfl
    rw [endsInString]
    · have hmode := scanStep_mode hc stack
      rw [ih (scanStep ⟨modeOf inString, stack⟩ c).stack, ← hmode]
      rfl
    · exact h₁
    · exact h₂

theorem openDelimiters_scan (inString : Bool) (stack cs : List Char) :
    openDelimiters inString stack cs = (scan ⟨modeOf inString, stack⟩ cs).stack := by
  induction inString, cs using endsInString.induct generalizing stack with
  | case1 inString => rw [openDelimiters]; rfl
  | case2 => rfl
  | case3 c cs ih => exact ih stack
  | case4 inString c cs h₁ h₂ ih =>
    rw [openDelimiters]
    · cases inString with
      | true =>
        have hc : c ≠ '\\' := by
          intro hback
          cases cs with
          | nil => exact h₁ rfl hback rfl
          | cons d cs => exact h₂ d cs rfl hback rfl
        by_cases hq : c = '"'
        · subst hq
          exact ih stack
        · rw [if_neg hq] at ih ⊢
          have hstep : scanStep ⟨.inside, stack⟩ c = ⟨.inside, stack⟩ := by simp [scanStep, hq, hc]
          rw [if_pos rfl, ih stack]
          show _ = (scan (scanStep ⟨.inside, stack⟩ c) cs).stack
          rw [hstep]
          rfl
      | false =>
        by_cases hq : c = '"'
        · subst hq
          exact ih stack
        · rw [if_neg hq] at ih ⊢
          rw [if_neg Bool.false_ne_true]
          show _ = (scan (scanStep ⟨.outside, stack⟩ c) cs).stack
          unfold scanStep
          simp only [if_neg hq]
          split
          · exact ih _
          · split
            · exact ih _
            · split
              · exact ih _
              · exact ih _
    · exact h₁
    · exact h₂

/-! ## The decoder -/

/-- Whether a string is open where the decoder stands. -/
def modeAt : Place → Mode
  | .string _ .none => .inside
  | .string _ .backslash => .escaped
  | .string _ (.hex _) => .inside
  | _ => .outside

/-- The bracket a first item or key stands behind. -/
def innermost : Place → Option Bracket
  | .firstItem => some .array
  | .firstKey => some .object
  | _ => none

/-- The scanners see what the decoder does. -/
structure Same (place : Place) (opened : List Bracket) (s : Scan) : Prop where
  mode : s.mode = modeAt place
  stack : s.stack = closers opened
  inner : ∀ b, innermost place = some b → opened.head? = some b

/-- They do as long as it has not failed. -/
def Agrees (cfg : Config) (s : Scan) : Prop := ∀ place opened, cfg = .at place opened → Same place opened s

theorem agrees_failed (f : Failure) (s : Scan) : Agrees (.failed f) s := by
  intro place opened h
  cases h

theorem agrees_at {place : Place} {opened : List Bracket} {s : Scan} (hmode : s.mode = modeAt place)
    (hstack : s.stack = closers opened) (hinner : innermost place = none) : Agrees (.at place opened) s := by
  intro place' opened' h
  cases h
  refine ⟨hmode, hstack, ?_⟩
  intro b hb
  rw [hinner] at hb
  cases hb

/-- A character of no string that is no quote and no bracket. -/
theorem scanStep_neutral {c : Char} (hc : c ∉ ['"', '\x7b', '[', '\x7d', ']']) (stack : List Char) :
    scanStep ⟨.outside, stack⟩ c = ⟨.outside, stack⟩ := by
  simp only [List.mem_cons, List.not_mem_nil, or_false, not_or] at hc
  obtain ⟨hquote, hbrace, hbracket, hclose, hclose'⟩ := hc
  simp [scanStep, hquote, hbrace, hbracket, hclose, hclose']

theorem isWs_neutral {c : Char} (h : Json.isWs c = true) : c ∉ ['"', '\x7b', '[', '\x7d', ']'] := by
  intro hmem
  simp only [List.mem_cons, List.not_mem_nil, or_false] at hmem
  rcases hmem with rfl | rfl | rfl | rfl | rfl <;> cases h

theorem isAtomChar_neutral {c : Char} (h : Number.isAtomChar c = true) : c ∉ ['"', '\x7b', '[', '\x7d', ']'] := by
  intro hmem
  simp only [List.mem_cons, List.not_mem_nil, or_false] at hmem
  rcases hmem with rfl | rfl | rfl | rfl | rfl <;> cases h

section Steps

variable {lim : Limits} {opened : List Bracket}

theorem agrees_opening (b : Bracket) : Agrees (opening lim b opened) ⟨.outside, b.close :: closers opened⟩ := by
  unfold opening
  split
  · exact agrees_failed _ _
  · intro place opened' h
    cases b with
    | object =>
      cases h
      exact ⟨rfl, rfl, fun b hb => hb⟩
    | array =>
      cases h
      exact ⟨rfl, rfl, fun b hb => hb⟩

theorem agrees_startValue (c : Char) :
    Agrees (startValue lim opened c) (scanStep ⟨.outside, closers opened⟩ c) := by
  unfold startValue
  split
  · rename_i hws
    rw [scanStep_neutral (isWs_neutral hws)]
    exact agrees_at rfl rfl rfl
  · split
    · rename_i hquote
      subst hquote
      exact agrees_at rfl rfl rfl
    · split
      · rename_i hbrace
        subst hbrace
        exact agrees_opening .object
      · split
        · rename_i hbracket
          subst hbracket
          exact agrees_opening .array
        · split
          · rename_i hatom
            rw [scanStep_neutral (isAtomChar_neutral hatom)]
            exact agrees_at rfl rfl rfl
          · exact agrees_failed _ _

theorem agrees_startKey {place : Place} (hmode : modeAt place = .outside)
    (hinner : ∀ b, innermost place = some b → opened.head? = some b) (c : Char) :
    Agrees (startKey place opened c) (scanStep ⟨.outside, closers opened⟩ c) := by
  unfold startKey
  split
  · rename_i hws
    rw [scanStep_neutral (isWs_neutral hws)]
    intro place' opened' h
    cases h
    exact ⟨hmode.symm, rfl, hinner⟩
  · split
    · rename_i hquote
      subst hquote
      exact agrees_at rfl rfl rfl
    · exact agrees_failed _ _

/-- A closing bracket takes the innermost one away. -/
theorem agrees_close (b : Bracket) :
    Agrees (.at .after opened) (scanStep ⟨.outside, closers (b :: opened)⟩ b.close) := by
  have hstep : scanStep ⟨.outside, closers (b :: opened)⟩ b.close = ⟨.outside, closers opened⟩ := by
    cases b <;> simp [scanStep, closers, Bracket.close]
  rw [hstep]
  exact agrees_at rfl rfl rfl

theorem agrees_behindValue (c : Char) :
    Agrees (behindValue opened c) (scanStep ⟨.outside, closers opened⟩ c) := by
  unfold behindValue
  split
  · rename_i hws
    rw [scanStep_neutral (isWs_neutral hws)]
    exact agrees_at rfl rfl rfl
  · cases opened with
    | nil => exact agrees_failed _ _
    | cons b opened =>
      simp only
      split
      · rename_i hclose
        subst hclose
        exact agrees_close b
      · split
        · rename_i hcomma
          subst hcomma
          cases b <;> exact agrees_at rfl rfl rfl
        · exact agrees_failed _ _

theorem hexValue_plain {c : Char} (h : (Json.hexValue? c).isSome = true) : c ≠ '"' ∧ c ≠ '\\' := by
  refine ⟨?_, ?_⟩
  · rintro rfl
    cases h
  · rintro rfl
    cases h

theorem agrees_inString (role : Role) (escape : Escape) (c : Char) :
    Agrees (inString role opened c escape) (scanStep ⟨modeAt (.string role escape), closers opened⟩ c) := by
  cases escape with
  | none =>
    show Agrees (if c = '"' then _ else if c = '\\' then _ else if c.toNat < 0x20 then _ else _) _
    split
    · rename_i hquote
      subst hquote
      cases role <;> exact agrees_at rfl rfl rfl
    · rename_i hquote
      split
      · rename_i hback
        subst hback
        exact agrees_at rfl rfl rfl
      · rename_i hback
        split
        · exact agrees_failed _ _
        · have hstep : scanStep ⟨.inside, closers opened⟩ c = ⟨.inside, closers opened⟩ := by
            simp [scanStep, hquote, hback]
          show Agrees _ (scanStep ⟨.inside, closers opened⟩ c)
          rw [hstep]
          exact agrees_at rfl rfl rfl
  | backslash =>
    rw [inString]
    split
    · exact agrees_at rfl rfl rfl
    · split
      · exact agrees_at rfl rfl rfl
      · exact agrees_failed _ _
  | hex k =>
    rw [inString]
    split
    · rename_i hhex
      obtain ⟨hquote, hback⟩ := hexValue_plain hhex
      have hstep : scanStep ⟨.inside, closers opened⟩ c = ⟨.inside, closers opened⟩ := by
        simp [scanStep, hquote, hback]
      show Agrees _ (scanStep ⟨.inside, closers opened⟩ c)
      rw [hstep]
      split <;> exact agrees_at rfl rfl rfl
    · exact agrees_failed _ _

theorem agrees_step {cfg : Config} {s : Scan} (h : Agrees cfg s) (c : Char) :
    Agrees (step lim cfg c) (scanStep s c) := by
  cases cfg with
  | failed f => exact agrees_failed f _
  | «at» place opened =>
    obtain ⟨hmode, hstack, hinner⟩ := h place opened rfl
    obtain ⟨mode, stack⟩ := s
    simp only at hmode hstack
    subst hmode hstack
    cases place with
    | value => exact agrees_startValue c
    | firstItem =>
      show Agrees (if Json.isWs c then _ else if c = ']' then _ else _) _
      split
      · rename_i hws
        rw [show modeAt .firstItem = .outside from rfl, scanStep_neutral (isWs_neutral hws)]
        intro place' opened' h'
        cases h'
        exact ⟨rfl, rfl, hinner⟩
      · split
        · rename_i hclose
          subst hclose
          obtain ⟨rest, rfl⟩ := List.head?_eq_some_iff.mp (hinner .array rfl)
          exact agrees_close .array
        · exact agrees_startValue c
    | firstKey =>
      show Agrees (if c = '\x7d' then _ else _) _
      split
      · rename_i hclose
        subst hclose
        obtain ⟨rest, rfl⟩ := List.head?_eq_some_iff.mp (hinner .object rfl)
        exact agrees_close .object
      · exact agrees_startKey rfl hinner c
    | key => exact agrees_startKey rfl hinner c
    | colon =>
      show Agrees (if Json.isWs c then _ else if c = ':' then _ else _) _
      split
      · rename_i hws
        rw [show modeAt .colon = .outside from rfl, scanStep_neutral (isWs_neutral hws)]
        exact agrees_at rfl rfl rfl
      · split
        · rename_i hcolon
          subst hcolon
          exact agrees_at rfl rfl rfl
        · exact agrees_failed _ _
    | after => exact agrees_behindValue c
    | string role escape => exact agrees_inString role escape c
    | atom read =>
      show Agrees (if Number.isAtomChar c then _ else _) _
      split
      · rename_i hatom
        rw [show modeAt (.atom read) = .outside from rfl, scanStep_neutral (isAtomChar_neutral hatom)]
        exact agrees_at rfl rfl rfl
      · cases atomFailure lim read with
        | some f => exact agrees_failed f _
        | none => exact agrees_behindValue c

theorem agrees_run {cfg : Config} {s : Scan} (h : Agrees cfg s) (cs : List Char) :
    Agrees (run lim cfg cs) (scan s cs) := by
  induction cs generalizing cfg s with
  | nil => exact h
  | cons c cs ih => exact ih (agrees_step h c)

theorem agrees_start : Agrees start ⟨.outside, []⟩ := agrees_at rfl rfl rfl

end Steps

/-! ## A text cut inside a string -/

section Cut

variable {lim : Limits} {p : List Char} {role : Role} {escape : Escape} {opened : List Bracket}

/-- Inside a string the repair adds a quote and the brackets that are open. -/
theorem closedText_inString (h : run lim start p = .at (.string role escape) opened) :
    closedText p = p ++ '"' :: closers opened := by
  obtain ⟨hmode, hstack, -⟩ := agrees_run agrees_start p _ _ h
  have hends : endsInString false p = true := by
    rw [endsInString_scan false [] p]
    show decide ((scan ⟨.outside, []⟩ p).mode ≠ .outside) = true
    rw [hmode]
    cases escape <;> rfl
  have hquote : scanStep (scan ⟨.outside, []⟩ p) '"' = ⟨(scanStep (scan ⟨.outside, []⟩ p) '"').mode, closers opened⟩ := by
    generalize scan ⟨.outside, []⟩ p = s at hstack
    obtain ⟨mode, stack⟩ := s
    obtain rfl : stack = closers opened := hstack
    cases mode <;> rfl
  have hopen : openDelimiters false [] (p ++ ['"']) = closers opened := by
    rw [openDelimiters_scan]
    show (scan ⟨.outside, []⟩ (p ++ ['"'])).stack = closers opened
    rw [scan, List.foldl_append, ← scan]
    show (scanStep (scan ⟨.outside, []⟩ p) '"').stack = closers opened
    rw [hquote]
  have hquoted : (if endsInString false p then p ++ ['"'] else p) = p ++ ['"'] := if_pos hends
  show (if endsInString false p then p ++ ['"'] else p) ++
    openDelimiters false [] (if endsInString false p then p ++ ['"'] else p) = _
  rw [hquoted, hopen, List.append_assoc]
  rfl

/-- The closed text of a string value is read, unless the quote falls into an escape. -/
theorem loadsFailure_closedText (h : run lim start p = .at (.string .value escape) opened) :
    loadsFailure lim (closedText p) = if escape = .none then none else some .decodeError := by
  unfold loadsFailure
  rw [closedText_inString h, run_append, h, run_cons]
  cases escape with
  | none =>
    rw [show step lim (.at (.string .value .none) opened) '"' = .at .after opened from rfl, run_close]
    rfl
  | backslash =>
    rw [show step lim (.at (.string .value .backslash) opened) '"' = .at (.string .value .none) opened from rfl,
      run_close_string]
    cases opened <;> rfl
  | hex k =>
    rw [show step lim (.at (.string .value (.hex k)) opened) '"' = .failed .decodeError from rfl, run_failed]
    rfl

theorem loadsFailure_inString (h : run lim start p = .at (.string role escape) opened) :
    loadsFailure lim p = some .decodeError := by
  unfold loadsFailure
  rw [h]
  cases opened <;> rfl

theorem atomChar_not_space {c : Char} (h : Number.isAtomChar c = true) : PyStr.isSpace c = false := by
  delta Number.isAtomChar Char.isAlphanum Char.isAlpha Char.isUpper Char.isLower Char.isDigit at h
  simp only [Bool.or_eq_true, Bool.and_eq_true, decide_eq_true_eq, UInt32.le_iff_toNat_le, beq_iff_eq] at h
  have hrange : 43 ≤ c.toNat ∧ c.toNat ≤ 122 := by
    rcases h with (((((⟨hlo, hhi⟩ | ⟨hlo, hhi⟩) | ⟨hlo, hhi⟩) | rfl) | rfl) | rfl)
    · exact ⟨Nat.le_trans (by decide) hlo, Nat.le_trans hhi (by decide)⟩
    · exact ⟨Nat.le_trans (by decide) hlo, hhi⟩
    · exact ⟨Nat.le_trans (by decide) hlo, Nat.le_trans hhi (by decide)⟩
    · decide
    · decide
    · decide
  simp only [PyStr.isSpace, Bool.or_eq_false_iff, Bool.and_eq_false_iff, decide_eq_false_iff_not, beq_eq_false_iff_ne]
  omega

/-- White space alone leaves the decoder in front of a value, if it does not fail. -/
theorem run_blank (hp : ∀ c ∈ p, PyStr.isSpace c = true) : run lim start p = start ∨ ∃ f, run lim start p = .failed f := by
  induction p with
  | nil => exact .inl rfl
  | cons c p ih =>
    obtain ⟨hc, hp⟩ := List.forall_mem_cons.mp hp
    rw [run_cons]
    have hstep : step lim start c = start ∨ step lim start c = .failed .decodeError := by
      have hquote : c ≠ '"' := by
        rintro rfl
        cases hc
      have hbrace : c ≠ '\x7b' := by
        rintro rfl
        cases hc
      have hbracket : c ≠ '[' := by
        rintro rfl
        cases hc
      have hatom : Number.isAtomChar c = false := by
        by_contra hyes
        rw [Bool.not_eq_false] at hyes
        rw [atomChar_not_space hyes] at hc
        cases hc
      show startValue lim [] c = _ ∨ startValue lim [] c = _
      unfold startValue
      rw [if_neg hquote, if_neg hbrace, if_neg hbracket, hatom]
      split
      · exact .inl rfl
      · exact .inr rfl
    rcases hstep with hstay | hfail
    · rw [hstay]
      exact ih hp
    · rw [hfail, run_failed]
      exact .inr ⟨_, rfl⟩

theorem strip_inString (h : run lim start p = .at (.string role escape) opened) : (PyStr.strip p).isEmpty = false := by
  by_contra hempty
  rw [Bool.not_eq_false, List.isEmpty_iff] at hempty
  have hblank : ∀ c ∈ p, PyStr.isSpace c = true := by
    rw [← List.dropWhile_eq_nil_iff]
    -- what is stripped from the end begins with no white space
    have hall : ∀ c ∈ (p.dropWhile PyStr.isSpace).reverse, PyStr.isSpace c = true := by
      rw [← List.dropWhile_eq_nil_iff]
      unfold PyStr.strip at hempty
      exact List.reverse_eq_nil_iff.mp hempty
    cases hrest : p.dropWhile PyStr.isSpace with
    | nil => rfl
    | cons c rest =>
      have hhead := List.head?_dropWhile_not PyStr.isSpace p
      rw [hrest] at hhead hall
      have hspace := hall c (by simp)
      simp [hspace] at hhead
  rcases @run_blank lim p hblank with hstart | ⟨f, hfail⟩
  · rw [hstart] at h
    cases h
  · rw [hfail] at h
    cases h

end Cut

/-! ## The repair -/

def outcome : Loads → Option Failure
  | .value _ => none
  | .decodeError => some .decodeError
  | .valueError => some .valueError
  | .recursionError => some .recursionError

/-- `json.loads` reads and fails as the decoder does. -/
def Decodes (py : Python) (lim : Limits) : Prop := ∀ s, outcome (py.loads s) = loadsFailure lim s.toList

/-- An object's text, and a front of it that ends inside a string value; `escape` is what has
    been read of an escape there. -/
structure CutInValue (py : Python) (lim : Limits) (text p : String) (escape : Escape) : Prop where
  object : ∃ fields, py.loads text = .value (.obj fields)
  front : p.toList <+: text.toList
  inside : ∃ opened, run lim start p.toList = .at (.string .value escape) opened

theorem parses_eq {py : Python} {lim : Limits} (hd : Decodes py lim) {s : String} :
    (loadsFailure lim s.toList = none → parses py s = .ok true) ∧
      (loadsFailure lim s.toList = some .decodeError → parses py s = .ok false) := by
  rw [← hd s]
  unfold parses
  cases py.loads s with
  | value j => exact ⟨fun _ => rfl, (fun h => by cases h)⟩
  | decodeError => exact ⟨(fun h => by cases h), fun _ => rfl⟩
  | valueError => exact ⟨(fun h => by cases h), (fun h => by cases h)⟩
  | recursionError => exact ⟨(fun h => by cases h), (fun h => by cases h)⟩

theorem closedText_front (s : List Char) : s <+: closedText s := by
  unfold closedText
  simp only
  split
  · rw [List.append_assoc]
    exact List.prefix_append _ _
  · exact List.prefix_append _ _

/-- What the repair returns is read, and begins with what it was given. -/
theorem repair_sound {py : Python} {s r : String} (h : repairTruncatedJson py s = .ok (some r)) :
    (∃ j, py.loads r = .value j) ∧ s.toList <+: r.toList := by
  have hparses : ∀ t, parses py t = .ok true → ∃ j, py.loads t = .value j := by
    intro t ht
    unfold parses at ht
    split at ht
    · exact ⟨_, ‹_›⟩
    · cases ht
    · cases ht
    · cases ht
  unfold repairTruncatedJson at h
  split at h
  · cases h
  · split at h
    · cases h
    · rename_i hok
      cases h
      exact ⟨hparses _ hok, List.prefix_rfl⟩
    · simp only at h
      cases hclosed : parses py (String.ofList (closedText s.toList)) with
      | error e =>
        rw [hclosed] at h
        cases h
      | ok readable =>
        rw [hclosed] at h
        cases readable with
        | false => cases h
        | true =>
          cases h
          refine ⟨hparses _ hclosed, ?_⟩
          rw [String.toList_ofList]
          exact closedText_front _

theorem repair_inValue {py : Python} {lim : Limits} (hd : Decodes py lim) {p : String} {escape : Escape}
    {opened : List Bracket} (h : run lim start p.toList = .at (.string .value escape) opened) :
    (∃ r, repairTruncatedJson py p = .ok (some r)) ↔ escape = .none := by
  have hcut := (parses_eq hd).2 (loadsFailure_inString h)
  unfold repairTruncatedJson
  rw [strip_inString h, if_neg Bool.false_ne_true, hcut]
  simp only
  have hclosed := loadsFailure_closedText h
  rw [← String.toList_ofList (l := closedText p.toList)] at hclosed
  by_cases hescape : escape = .none
  · rw [if_pos hescape] at hclosed
    rw [(parses_eq hd).1 hclosed]
    exact iff_of_true ⟨_, rfl⟩ hescape
  · rw [if_neg hescape] at hclosed
    rw [(parses_eq hd).2 hclosed]
    refine iff_of_false ?_ hescape
    intro hr
    obtain ⟨r, hr⟩ := hr
    cases hr

/-- What is returned is JSON and goes on from the text given; and an object cut inside a
    string value is repaired exactly if the cut is not inside an escape. -/
theorem cut_is_repaired_iff {py : Python} {lim : Limits} (hd : Decodes py lim) :
    (∀ s r, repairTruncatedJson py s = .ok (some r) → (∃ j, py.loads r = .value j) ∧ s.toList <+: r.toList) ∧
      ∀ text p escape, CutInValue py lim text p escape →
        ((∃ r, repairTruncatedJson py p = .ok (some r)) ↔ escape = .none) := by
  refine ⟨fun s r h => repair_sound h, ?_⟩
  intro text p escape hcut
  obtain ⟨opened, hinside⟩ := hcut.inside
  exact repair_inValue hd hinside

/-! ## A cut behind a backslash -/

def usual : Limits := ⟨4300, 990⟩

def decoding : Python where
  loads s :=
    match loadsFailure usual s.toList with
    | none => .value ((Json.parse s.toList).getD .null)
    | some .decodeError => .decodeError
    | some .valueError => .valueError
    | some .recursionError => .recursionError
  str _ := ""
  isAlnum := Char.isAlphanum
  isDigit := Char.isDigit
  upper := id

theorem decoding_decodes : Decodes decoding usual := by
  intro s
  unfold decoding
  simp only
  cases loadsFailure usual s.toList with
  | none => rfl
  | some f => cases f <;> rfl

theorem a_cut_between_characters_is_repaired :
    ∃ r, repairTruncatedJson decoding "\x7b\"a\":\"b" = .ok (some r) := by
  refine ((cut_is_repaired_iff decoding_decodes).2 "\x7b\"a\":\"b\"\x7d" "\x7b\"a\":\"b" .none ⟨?_, ?_, ?_⟩).mpr rfl
  · exact ⟨[("a", .str "b")], rfl⟩
  · exact ⟨"\"\x7d".toList, rfl⟩
  · exact ⟨[.object], rfl⟩

/-- The quote the repair adds is escaped by the backslash the text was cut behind. -/
theorem a_cut_escape_is_not_repaired :
    CutInValue decoding usual "\x7b\"a\":\"\\n\"\x7d" "\x7b\"a\":\"\\" .backslash ∧
      ¬ ∃ r, repairTruncatedJson decoding "\x7b\"a\":\"\\" = .ok (some r) := by
  have hinside : run usual start "\x7b\"a\":\"\\".toList = .at (.string .value .backslash) [.object] := rfl
  refine ⟨⟨⟨[("a", .str "\n")], rfl⟩, ⟨"n\"\x7d".toList, rfl⟩, [.object], hinside⟩, ?_⟩
  rw [repair_inValue decoding_decodes hinside]
  exact Escape.noConfusion

end Errand.Runner.TruncatedArguments

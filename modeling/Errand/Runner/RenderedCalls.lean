import Errand.Lib.JsonRoundTrip
import Errand.Runner.XmlRecovery

/-
  Errand.Runner.RenderedCalls — calls a model wrote as `<tool_call>` blocks, read back
  (`parse_xml_tool_calls`, task-runner/xml_tool_call_recovery.py).

  A call has a name, an argument text that is a JSON object, and one of the two headers; the
  text between its tags is white space, and what stands between two blocks opens no block.

  The name is searched for in the whole block, the `<function=…>` form first, so a block with
  the `<function_name>` header takes its name from its own arguments when they hold such a tag.

  Proved: `recovers_calls_iff` — the calls read are the calls written exactly when, in each
  block with a `<function_name>` header, the first `<function=…>` tag of the argument text, if
  there is one, names the call's own function. `a_tag_in_the_text_renames_the_call` is the rest.
-/

namespace Errand.Runner.RenderedCalls

open Errand.Lib Errand.Lib.Regex Errand.Runner.XmlRecovery

/-! ## Calls -/

/-- White space. -/
abbrev Space := { w : Text // ∀ c ∈ w, PyStr.isSpace c = true }

/-- An argument text: an object, in which no block ends. -/
structure Body (py : Python) where
  inner : Text
  fields : Arguments
  reads : py.loads (String.ofList ('\x7b' :: (inner ++ ['\x7d']))) = .value (.obj fields)
  closed : ¬ closeTag.toList <:+: '\x7b' :: (inner ++ ['\x7d'])

def Body.text {py : Python} (b : Body py) : Text := '\x7b' :: (b.inner ++ ['\x7d'])

def nameStart (c : Char) : Bool := c.isAlpha || c == '_'

def nameRest (py : Python) (c : Char) : Bool := py.isAlnum c || c == '_' || c == '-' || c == '.'

/-- The parser's identifiers. -/
structure Name (py : Python) where
  first : Char
  rest : Text
  starts : nameStart first = true
  goes : ∀ c ∈ rest, nameRest py c = true

def Name.text {py : Python} (n : Name py) : Text := n.first :: n.rest

inductive Header where
  /-- `<function=name>`. -/
  | attr
  /-- `<function_name>name</function_name>`. -/
  | elem
  deriving DecidableEq, Repr

def Header.render : Header → Text → Text
  | .attr, name => "<function=".toList ++ (name ++ ">".toList)
  | .elem, name => "<function_name>".toList ++ (name ++ "</function_name>".toList)

structure Call (py : Python) where
  header : Header
  name : Name py
  body : Body py
  lead : Space
  mid : Space
  opening : Space
  closing : Space
  trail : Space

variable {py : Python}

/-- What stands in front of the argument text. -/
def Call.front (call : Call py) : Text :=
  call.lead.val ++ (call.header.render call.name.text ++ (call.mid.val ++ ("<arguments>".toList ++ call.opening.val)))

/-- What stands behind it. -/
def Call.back (call : Call py) : Text := call.closing.val ++ ("</arguments>".toList ++ call.trail.val)

def Call.block (call : Call py) : Text := call.front ++ (call.body.text ++ call.back)

/-- Text outside the blocks. -/
abbrev Gap := { w : Text // ¬ openTag.toList <:+: w }

def render : List (Gap × Call py) → Gap → Text
  | [], tail => tail.val
  | (gap, call) :: calls, tail =>
    gap.val ++ (openTag.toList ++ (call.block ++ (closeTag.toList ++ render calls tail)))

/-- The call as the parser is to return it. -/
def Call.written (call : Call py) : CallBody :=
  ⟨String.ofList call.name.text, String.ofList (Json.dumps (.obj call.body.fields))⟩

/-! ## Punctuation -/

/-- The marks of a block are no letters and no digits. -/
structure Marks (py : Python) : Prop where
  lt : py.isAlnum '<' = false
  gt : py.isAlnum '>' = false
  opening : py.isAlnum '\x7b' = false
  closing : py.isAlnum '\x7d' = false

theorem space_free {w : Space} {c : Char} (hc : PyStr.isSpace c = false) : c ∉ w.val := by
  intro hmem
  have hspace := w.property c hmem
  rw [hc] at hspace
  cases hspace

theorem name_free {n : Name py} {c : Char} (hstart : nameStart c = false) (hrest : nameRest py c = false) :
    c ∉ n.text := by
  intro hmem
  rcases List.mem_cons.mp hmem with rfl | hmem
  · have hfirst := n.starts
    rw [hstart] at hfirst
    cases hfirst
  · have hgoes := n.goes c hmem
    rw [hrest] at hgoes
    cases hgoes

theorem Marks.nameRest (h : Marks py) :
    RenderedCalls.nameRest py '<' = false ∧ RenderedCalls.nameRest py '>' = false ∧
      RenderedCalls.nameRest py '\x7b' = false ∧ RenderedCalls.nameRest py '\x7d' = false := by
  simp [RenderedCalls.nameRest, h.lt, h.gt, h.opening, h.closing]

/-! ## Names -/

theorem functionAttrRe_eq : functionAttrRe py =
    lit "<function" ++ (spaces :: (lit "=" ++ (spaces :: .opens :: .char nameStart :: .greedy (nameRest py) ::
      .closes :: spaces :: lit ">"))) := by
  simp only [functionAttrRe, group, XmlRecovery.name, List.append_assoc, List.cons_append, List.nil_append]
  rfl

theorem functionElemRe_eq : functionElemRe py =
    lit "<function_name>" ++ (spaces :: .opens :: .char nameStart :: .greedy (nameRest py) ::
      .closes :: spaces :: lit "</function_name>") := by
  simp only [functionElemRe, group, XmlRecovery.name, List.append_assoc, List.cons_append, List.nil_append]
  rfl

section Match

variable {pat : Pattern} {mark : Text} {groups : List Text} {s : Text} {r : List Text × Text}

/-- No white space where some may stand. -/
theorem matchAt_tight {c : Char} (hc : PyStr.isSpace c = false) (h : matchAt pat mark groups (c :: s) = some r) :
    matchAt (spaces :: pat) mark groups (c :: s) = some r := by
  refine matchAt_run (w := []) (fun _ hmem => absurd hmem List.not_mem_nil) ?_ h
  intro d hd
  cases hd
  exact hc

/-- A name up to a character that is none of its own is a group. -/
theorem matchAt_name {n : Name py} {c : Char} (hc : nameRest py c = false)
    (h : matchAt pat (n.text ++ c :: s) (groups ++ [n.text]) (c :: s) = some r) :
    matchAt (.opens :: .char nameStart :: .greedy (nameRest py) :: .closes :: pat) mark groups (n.text ++ c :: s) =
      some r := by
  rw [matchAt, show n.text ++ c :: s = n.first :: (n.rest ++ c :: s) from rfl, matchAt, if_pos n.starts]
  refine matchAt_run n.goes ?_ ?_
  · intro d hd
    cases hd
    exact hc
  · rw [matchAt, ← show n.text ++ c :: s = n.first :: (n.rest ++ c :: s) from rfl, group_text]
    exact h

end Match

theorem nameStart_not_space {c : Char} (h : nameStart c = true) : PyStr.isSpace c = false := by
  delta nameStart Char.isAlpha Char.isUpper Char.isLower at h
  simp only [Bool.or_eq_true, Bool.and_eq_true, decide_eq_true_eq,
    UInt32.le_iff_toNat_le, beq_iff_eq] at h
  have hrange : 65 ≤ c.toNat ∧ c.toNat ≤ 122 := by
    rcases h with (⟨hlo, hhi⟩ | ⟨hlo, hhi⟩) | rfl
    · exact ⟨hlo, Nat.le_trans hhi (by decide)⟩
    · exact ⟨Nat.le_trans (by decide) hlo, hhi⟩
    · decide
  simp only [PyStr.isSpace, Bool.or_eq_false_iff, Bool.and_eq_false_iff, decide_eq_false_iff_not, beq_eq_false_iff_ne]
  omega

theorem matchFront_attr (hm : Marks py) (n : Name py) (s : Text) :
    matchFront (functionAttrRe py) ("<function=".toList ++ (n.text ++ (">".toList ++ s))) = some ([n.text], s) := by
  unfold matchFront
  rw [functionAttrRe_eq]
  show matchAt (lit "<function" ++ _) _ [] ("<function".toList ++ ("=".toList ++ (n.text ++ (">".toList ++ s)))) = _
  rw [matchAt_literal]
  refine matchAt_tight (by decide) ?_
  show matchAt (lit "=" ++ _) _ [] ("=".toList ++ (n.text ++ (">".toList ++ s))) = _
  rw [matchAt_literal]
  refine matchAt_tight (nameStart_not_space n.starts) ?_
  refine matchAt_name (c := '>') hm.nameRest.2.1 ?_
  exact matchAt_tight (by decide) (matchAt_last _ _)

theorem matchFront_elem (hm : Marks py) (n : Name py) (s : Text) :
    matchFront (functionElemRe py) ("<function_name>".toList ++ (n.text ++ ("</function_name>".toList ++ s))) =
      some ([n.text], s) := by
  unfold matchFront
  rw [functionElemRe_eq, matchAt_literal]
  refine matchAt_tight (nameStart_not_space n.starts) ?_
  refine matchAt_name (c := '<') hm.nameRest.1 ?_
  exact matchAt_tight (by decide) (matchAt_last _ _)

/-! ## Searches in a block -/

def Header.tags : Header → List String
  | .attr => ["<function="]
  | .elem => ["<function_name>", "</function_name>"]

theorem Header.tags_all {P : String → Prop} (h : Header) (hattr : P "<function=") (hopens : P "<function_name>")
    (hcloses : P "</function_name>") : ∀ tag ∈ h.tags, P tag := by
  intro tag htag
  cases h with
  | attr =>
    obtain rfl := List.mem_singleton.mp htag
    exact hattr
  | elem =>
    rcases List.mem_cons.mp htag with rfl | htag
    · exact hopens
    · obtain rfl := List.mem_singleton.mp htag
      exact hcloses

/-- A tag at which no match of the pattern begins. -/
def Misses (pat : Pattern) (tag : String) : Prop := ∀ s, matchFront pat (tag.toList ++ s) = none

section Search

variable {pat : Pattern} {call : Call py}

theorem search_tag (hp : Begins pat '<') {tag : String} (hmiss : Misses pat tag) (t : Text)
    (ht : tag.toList = '<' :: t) (hfree : '<' ∉ t) (s : Text) : search pat (tag.toList ++ s) = search pat s := by
  have hhere := hmiss s
  rw [ht, List.cons_append] at hhere ⊢
  rw [search_miss hhere, search_skip hp hfree]

/-- A search that finds nothing in the header goes on behind it. -/
theorem search_header (hm : Marks py) (hp : Begins pat '<') (hmiss : ∀ tag ∈ call.header.tags, Misses pat tag)
    (s : Text) :
    search pat (call.lead.val ++ (call.header.render call.name.text ++ (call.mid.val ++ s))) = search pat s := by
  have hname : '<' ∉ call.name.text := name_free (by decide) hm.nameRest.1
  have hspace : PyStr.isSpace '<' = false := by decide
  rw [search_skip hp (space_free hspace)]
  cases hheader : call.header with
  | attr =>
    rw [hheader] at hmiss
    have hopens := hmiss "<function=" (List.mem_singleton.mpr rfl)
    unfold Header.render
    rw [List.append_assoc, List.append_assoc, search_tag hp hopens "function=".toList rfl (by decide)]
    rw [search_skip hp hname, search_skip hp (by decide), search_skip hp (space_free hspace)]
  | elem =>
    rw [hheader] at hmiss
    have hopens := hmiss "<function_name>" List.mem_cons_self
    have hcloses := hmiss "</function_name>" (List.mem_cons_of_mem _ List.mem_cons_self)
    unfold Header.render
    rw [List.append_assoc, List.append_assoc, search_tag hp hopens "function_name>".toList rfl (by decide)]
    rw [search_skip hp hname, search_tag hp hcloses "/function_name>".toList rfl (by decide)]
    rw [search_skip hp (space_free hspace)]

theorem search_front (hm : Marks py) (hp : Begins pat '<') (hmiss : ∀ tag ∈ call.header.tags, Misses pat tag)
    (hargs : Misses pat "<arguments>") : search pat call.front = none := by
  unfold Call.front
  rw [search_header hm hp hmiss, search_tag hp hargs "arguments>".toList rfl (by decide)]
  exact search_none hp (space_free (by decide))

theorem search_back (hp : Begins pat '<') (hargs : Misses pat "</arguments>") : search pat call.back = none := by
  unfold Call.back
  rw [search_skip hp (space_free (by decide)), search_tag hp hargs "/arguments>".toList rfl (by decide)]
  exact search_none hp (space_free (by decide))

theorem block_eq : call.block = call.front ++ '\x7b' :: (call.body.inner ++ '\x7d' :: call.back) := by
  unfold Call.block Body.text
  rw [List.cons_append, List.append_assoc]
  rfl

/-- A search for what has no brace looks in front of the argument text, in it, and behind it. -/
theorem search_block (hopen : Stops pat '\x7b') (hclose : Stops pat '\x7d') (hempty : search pat [] = none) :
    search pat call.block = (search pat call.front).or ((search pat call.body.inner).or (search pat call.back)) := by
  rw [block_eq, search_stop hopen hempty, search_stop hclose hempty]

theorem search_text (hopen : Stops pat '\x7b') (hclose : Stops pat '\x7d') (hempty : search pat [] = none) :
    search pat call.body.text = search pat call.body.inner := by
  have hstop := search_stop hopen hempty [] (call.body.inner ++ ['\x7d'])
  unfold Body.text
  rw [List.nil_append] at hstop
  rw [hstop, search_stop hclose hempty, hempty, Option.none_or, Option.or_none]

end Search

theorem attr_stops (hm : Marks py) : Stops (functionAttrRe py) '\x7b' ∧ Stops (functionAttrRe py) '\x7d' := by
  have hstops : ∀ x, PyStr.isSpace x = false → nameStart x = false → nameRest py x = false →
      x ∉ "<function".toList → x ∉ "=".toList → x ∉ ">".toList → Stops (functionAttrRe py) x := by
    intro x hspace hstart hrest hfunction heq hgt
    have hspaces : Stops [spaces] x := stops_greedy hspace
    have hname : Stops (XmlRecovery.name py) x := stops_append (stops_char hstart) (stops_greedy hrest)
    exact stops_append (stops_append (stops_append (stops_append (stops_append (stops_append
      (stops_lit hfunction) hspaces) (stops_lit heq)) hspaces) (stops_group hname)) hspaces) (stops_lit hgt)
  exact ⟨hstops _ (by decide) (by decide) hm.nameRest.2.2.1 (by decide) (by decide) (by decide),
    hstops _ (by decide) (by decide) hm.nameRest.2.2.2 (by decide) (by decide) (by decide)⟩

/-! ## What is read from a block -/

/-- The name the parser gives a call. -/
def Call.readName (call : Call py) : Text :=
  match call.header with
  | .attr => call.name.text
  | .elem => (group1 (search (functionAttrRe py) call.body.text)).getD call.name.text

theorem attr_begins : Begins (functionAttrRe py) '<' := ⟨_, rfl⟩

theorem elem_begins : Begins (functionElemRe py) '<' := ⟨_, rfl⟩

theorem arguments_begins : Begins argumentsJsonRe '<' := ⟨_, rfl⟩

theorem attr_misses : ∀ tag ∈ Header.elem.tags, Misses (functionAttrRe py) tag := by
  intro tag htag
  rcases List.mem_cons.mp htag with rfl | htag
  · exact fun _ => rfl
  · obtain rfl := List.mem_singleton.mp htag
    exact fun _ => rfl

theorem attr_front_elem (hm : Marks py) {call : Call py} (h : call.header = .elem) :
    search (functionAttrRe py) call.front = none := by
  refine search_front hm attr_begins ?_ fun _ => rfl
  rw [h]
  exact attr_misses

theorem attr_back {call : Call py} : search (functionAttrRe py) call.back = none :=
  search_back attr_begins fun _ => rfl

/-- The first `<function=…>` tag of a block: the header, or one in the argument text. -/
theorem search_attr (hm : Marks py) (call : Call py) :
    group1 (search (functionAttrRe py) call.block) =
      match call.header with
      | .attr => some call.name.text
      | .elem => group1 (search (functionAttrRe py) call.body.text) := by
  obtain ⟨hopen, hclose⟩ := attr_stops hm
  rw [search_block hopen hclose rfl]
  cases hheader : call.header with
  | attr =>
    have hfront : search (functionAttrRe py) call.front = some [call.name.text] := by
      unfold Call.front
      rw [hheader]
      show search (functionAttrRe py)
        (call.lead.val ++ (("<function=".toList ++ (call.name.text ++ ">".toList)) ++ _)) = _
      rw [search_skip attr_begins (space_free (by decide)), List.append_assoc, List.append_assoc]
      exact search_hit (by simp) (matchFront_attr hm call.name _)
    rw [hfront]
    rfl
  | elem =>
    rw [attr_front_elem hm hheader, attr_back, search_text hopen hclose rfl, Option.none_or, Option.or_none]

theorem search_elem (hm : Marks py) {call : Call py} (h : call.header = .elem) :
    group1 (search (functionElemRe py) call.block) = some call.name.text := by
  unfold Call.block Call.front
  rw [h]
  show group1 (search (functionElemRe py)
    ((call.lead.val ++ (("<function_name>".toList ++ (call.name.text ++ "</function_name>".toList)) ++ _)) ++ _)) = _
  rw [List.append_assoc, search_skip elem_begins (space_free (by decide)), List.append_assoc, List.append_assoc,
    List.append_assoc, search_hit (by simp) (matchFront_elem hm call.name _)]
  rfl

theorem extractFunctionName_block (hm : Marks py) (call : Call py) :
    extractFunctionName py call.block = some call.readName := by
  unfold extractFunctionName Call.readName
  rw [search_attr hm]
  cases hheader : call.header with
  | attr => rfl
  | elem =>
    rw [search_elem hm hheader]
    cases group1 (search (functionAttrRe py) call.body.text) with
    | none => rfl
    | some n => rfl

theorem argumentsJsonRe_eq : argumentsJsonRe =
    lit "<arguments>" ++ (spaces :: .opens :: (lit "\x7b" ++ (.greedy any :: (lit "\x7d" ++ (.closes :: spaces ::
      lit "</arguments>"))))) := by
  simp only [argumentsJsonRe, group, List.append_assoc, List.cons_append, List.nil_append]

theorem back_free {call : Call py} : '\x7d' ∉ call.back := by
  unfold Call.back
  rw [List.mem_append, List.mem_append, not_or, not_or]
  exact ⟨space_free (by decide), by decide, space_free (by decide)⟩

/-- The greedy run ends at the last brace, which is the one the argument text ends with. -/
theorem matchFront_arguments (call : Call py) :
    matchFront argumentsJsonRe ("<arguments>".toList ++ (call.opening.val ++ (call.body.text ++ call.back))) =
      some ([call.body.text], call.trail.val) := by
  have htext : call.body.text ++ call.back =
      "\x7b".toList ++ (call.body.inner ++ ("\x7d".toList ++ call.back)) := by
    unfold Body.text
    rw [List.cons_append, List.append_assoc]
    rfl
  unfold matchFront
  rw [argumentsJsonRe_eq, matchAt_literal]
  refine matchAt_run call.opening.property ?_ ?_
  · intro c hc
    cases hc
    rfl
  rw [matchAt]
  nth_rewrite 2 [htext]
  rw [matchAt_literal]
  refine matchAt_greedy ?_ ?_
  · rw [matchAt_literal, matchAt, group_text]
    refine matchAt_run call.closing.property ?_ (matchAt_last _ _)
    intro c hc
    cases hc
    rfl
  · intro k hk
    obtain ⟨k, rfl⟩ := Nat.exists_eq_succ_of_ne_zero (Nat.pos_iff_ne_zero.mp hk)
    by_contra hsome
    obtain ⟨r, hr⟩ := Option.ne_none_iff_exists'.mp hsome
    have hpre := List.isPrefixOf_iff_prefix.mp (matchAt_lit hr).1
    exact back_free (List.mem_of_mem_drop (hpre.subset (List.mem_singleton.mpr rfl)))

theorem arguments_misses (h : Header) : ∀ tag ∈ h.tags, Misses argumentsJsonRe tag :=
  h.tags_all (fun _ => rfl) (fun _ => rfl) fun _ => rfl

theorem extractArguments_block (hm : Marks py) (call : Call py) :
    extractArguments py call.block = .ok (some call.body.fields) := by
  have hsearch : search argumentsJsonRe call.block = some [call.body.text] := by
    unfold Call.block Call.front
    rw [List.append_assoc, List.append_assoc, List.append_assoc, List.append_assoc]
    have hskip := @search_header py _ call hm arguments_begins (arguments_misses call.header)
      ("<arguments>".toList ++ (call.opening.val ++ (call.body.text ++ call.back)))
    exact hskip.trans (search_hit (by simp) (matchFront_arguments call))
  unfold extractArguments
  rw [hsearch]
  show (readArguments py call.body.text).map _ = _
  unfold readArguments
  rw [show call.body.text = '\x7b' :: (call.body.inner ++ ['\x7d']) from rfl, call.body.reads]
  rfl

theorem parseBlock_block (hm : Marks py) (call : Call py) (p : Parsed) :
    parseBlock py p call.block = .ok { p with recovered := p.recovered ++
      [⟨String.ofList call.readName, String.ofList (Json.dumps (.obj call.body.fields))⟩] } := by
  unfold parseBlock
  rw [extractArguments_block hm, extractFunctionName_block hm]
  rfl

/-! ## The blocks -/

theorem close_begins : Begins (lit closeTag) '<' := ⟨_, rfl⟩

theorem block_closed (hm : Marks py) (call : Call py) : ¬ closeTag.toList <:+: call.block := by
  have hopen : Stops (lit closeTag) '\x7b' := stops_lit (by decide)
  have hclose : Stops (lit closeTag) '\x7d' := stops_lit (by decide)
  have hfront : search (lit closeTag) call.front = none := by
    exact search_front hm close_begins (call.header.tags_all (fun _ => rfl) (fun _ => rfl) fun _ => rfl) fun _ => rfl
  have htext := (search_lit_none call.body.text).mpr call.body.closed
  rw [search_text hopen hclose rfl] at htext
  rw [← search_lit_none, search_block hopen hclose rfl, hfront, htext, search_back close_begins fun _ => rfl]
  rfl

theorem matchFront_block (hm : Marks py) (call : Call py) (s : Text) :
    matchFront toolCallBlockRe (openTag.toList ++ (call.block ++ (closeTag.toList ++ s))) = some ([call.block], s) := by
  unfold matchFront toolCallBlockRe
  rw [matchAt_literal]
  show matchAt (.lazy any :: .closes :: lit closeTag) (call.block ++ (closeTag.toList ++ s)) []
    (call.block ++ (closeTag.toList ++ s)) = _
  refine matchAt_lazy ?_ ?_
  · rw [matchAt, group_text]
    exact matchAt_last _ _
  · intro k hk
    rw [matchAt, ← List.append_nil (lit closeTag)]
    exact literal_misses (t := "/tool_call>".toList) rfl (by decide) (block_closed hm call) [] _ _ hk

theorem findAll_render (hm : Marks py) (calls : List (Gap × Call py)) (tail : Gap) :
    findAll toolCallBlockRe (render calls tail) = calls.map fun call => [call.2.block] := by
  induction calls with
  | nil =>
    refine findAll_none rfl ?_
    intro k hk
    by_contra hsome
    obtain ⟨r, hr⟩ := Option.ne_none_iff_exists'.mp hsome
    have hpre := List.isPrefixOf_iff_prefix.mp (matchAt_lit hr).1
    exact tail.property (hpre.isInfix.trans (List.drop_suffix k tail.val).isInfix)
  | cons call calls ih =>
    obtain ⟨gap, call⟩ := call
    have hmatch := matchFront_block hm call (render calls tail)
    have hbehind : findAll toolCallBlockRe (render ((gap, call) :: calls) tail) =
        findAll toolCallBlockRe (openTag.toList ++ (call.block ++ (closeTag.toList ++ render calls tail))) := by
      refine findAll_behind ?_
      intro k hk
      exact literal_misses (t := "tool_call>".toList) rfl (by decide) gap.property _ _ _ hk
    have hassoc : openTag.toList ++ (call.block ++ (closeTag.toList ++ render calls tail)) =
        '<' :: (("tool_call>".toList ++ (call.block ++ closeTag.toList)) ++ render calls tail) := by
      rw [List.append_assoc, List.append_assoc]
      rfl
    rw [hbehind]
    rw [hassoc] at hmatch ⊢
    rw [findAll_hit hmatch, ih]
    rfl

/-! ## The calls -/

/-- The calls the parser returns, with the names it reads. -/
def readCalls (calls : List (Gap × Call py)) : List CallBody :=
  calls.map fun call => ⟨String.ofList call.2.readName, String.ofList (Json.dumps (.obj call.2.body.fields))⟩

theorem parseBlocks_render (hm : Marks py) (calls : List (Gap × Call py)) (p : Parsed) :
    (calls.map fun call => call.2.block).foldlM (parseBlock py) p =
      .ok { p with recovered := p.recovered ++ readCalls calls } := by
  induction calls generalizing p with
  | nil => simp [readCalls, pure, Except.pure]
  | cons call calls ih =>
    rw [List.map_cons, List.foldlM_cons, parseBlock_block hm]
    refine (ih _).trans ?_
    simp [readCalls]

theorem parseXmlToolCalls_render (hm : Marks py) (calls : List (Gap × Call py)) (tail : Gap) :
    parseXmlToolCalls py (render calls tail) = .ok ⟨readCalls calls, calls.length, none⟩ := by
  have hblocks : (findAll toolCallBlockRe (render calls tail)).filterMap List.head? =
      calls.map fun call => call.2.block := by
    rw [findAll_render hm, List.filterMap_map]
    exact congrFun List.filterMap_eq_map calls
  unfold parseXmlToolCalls
  simp only [hblocks, List.length_map]
  rw [parseBlocks_render hm]
  rfl

theorem readName_eq_iff (call : Call py) : call.readName = call.name.text ↔ (call.header = .elem →
    ∀ n, group1 (search (functionAttrRe py) call.body.text) = some n → n = call.name.text) := by
  unfold Call.readName
  cases call.header with
  | attr => simp
  | elem =>
    cases group1 (search (functionAttrRe py) call.body.text) with
    | none => simp
    | some n => simp

/-- The calls read are the calls written, in order, exactly when no `<function_name>` block
    holds, in its arguments, a first `<function=…>` tag of another name. -/
theorem recovers_calls_iff (hm : Marks py) (calls : List (Gap × Call py)) (tail : Gap) :
    (parseXmlToolCalls py (render calls tail)).map (·.recovered) = .ok (calls.map fun call => call.2.written) ↔
      ∀ call ∈ calls, call.2.header = .elem →
        ∀ n, group1 (search (functionAttrRe py) call.2.body.text) = some n → n = call.2.name.text := by
  rw [parseXmlToolCalls_render hm]
  show Except.ok (readCalls calls) = Except.ok (calls.map fun call => call.2.written) ↔ _
  rw [Except.ok.injEq, readCalls, List.map_inj_left]
  refine forall₂_congr fun call _ => ?_
  rw [← readName_eq_iff, Call.written, CallBody.mk.injEq, String.ofList_inj]
  exact and_iff_left rfl

/-! ## A call whose arguments hold a tag -/

def ascii : Python where
  loads s :=
    match Json.parse s.toList with
    | some j => .value j
    | none => .decodeError
  str _ := ""
  isAlnum := Char.isAlphanum
  isDigit := Char.isDigit
  upper := id

theorem ascii_marks : Marks ascii := ⟨rfl, rfl, rfl, rfl⟩

def noSpace : Space := ⟨[], fun _ h => absurd h List.not_mem_nil⟩

def noGap : Gap := ⟨[], by decide⟩

def taggedFields : Arguments := [("text", .str "<function=other>")]

def tagged : Body ascii where
  inner := "\"text\": \"<function=other>\"".toList
  fields := taggedFields
  reads := by
    have htext : '\x7b' :: ("\"text\": \"<function=other>\"".toList ++ ['\x7d']) = Json.dumps (.obj taggedFields) := by
      decide
    unfold ascii
    simp only [String.toList_ofList]
    rw [htext, Json.dumps, Json.parse_write Json.spaced_valid]
  closed := (search_lit_none _).mp rfl

def speak (header : Header) : Call ascii where
  header := header
  name := ⟨'s', "ay".toList, rfl, by simp [nameRest, ascii]⟩
  body := tagged
  lead := noSpace
  mid := noSpace
  opening := noSpace
  closing := noSpace
  trail := noSpace

theorem a_tag_in_the_text_is_text :
    (parseXmlToolCalls ascii (render [(noGap, speak .attr)] noGap)).map (·.recovered) =
      .ok [(speak .attr).written] := by
  refine (recovers_calls_iff ascii_marks [(noGap, speak .attr)] noGap).mpr ?_
  intro call hcall helem
  obtain rfl := List.mem_singleton.mp hcall
  cases helem

/-- With the other header the same call comes back as one of the function the text names. -/
theorem a_tag_in_the_text_renames_the_call :
    (parseXmlToolCalls ascii (render [(noGap, speak .elem)] noGap)).map (·.recovered) ≠
      .ok [(speak .elem).written] := by
  have hname : (speak .elem).readName = "other".toList := rfl
  intro h
  rw [parseXmlToolCalls_render ascii_marks] at h
  have hcalls : readCalls [(noGap, speak .elem)] = [(speak .elem).written] := Except.ok.inj h
  have hnames : String.ofList (speak .elem).readName = String.ofList (speak .elem).name.text :=
    congrArg CallBody.name (List.cons.inj hcalls).1
  have htexts := String.ofList_inj.mp hnames
  rw [hname] at htexts
  exact absurd (List.cons.inj htexts).1 (by decide)

end Errand.Runner.RenderedCalls

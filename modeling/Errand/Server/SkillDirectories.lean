import Errand.Lib.Directories
import Errand.Lib.Lines
import Errand.Lib.PyStr
import Errand.Lib.Search
import Errand.Runner.EditFile
import Errand.Server.Skills

/-
  Errand.Server.SkillDirectories — skills on disk (`parse_skills_from_directory`,
  errand/task_manager.py).

  A skill is a directory with a `SKILL.md`, whose front matter has its name and its
  description, a line each; with it go two files beside it and the files of three
  directories. Each is read as UTF-8, with every line end a `\n`; one that is not raises.
  What a link leads to stands in its place.

  Proved:
  - `parseSkillsFromDirectory_cases`: the skills of a directory are parsed if each of its
    skills can be, and then they are those (`parseSkill_isSome_iff`: if each file is text).
  - `parse_named`: names and descriptions out of front matter are one line each, with nothing
    around them and no rule in them; `parse_plain`: such ones are read as they were written.
-/

namespace Errand.Server.SkillDirectories

open Errand.Lib Errand.Lib.PyStr Errand.Lib.Search Errand.Runner.EditFile Errand.Server.Skills

abbrev Disk := FileTree (List UInt8)

/-- `open(path, encoding="utf-8").read()`. -/
def readFile (t : Disk) (p : Path) : Option String :=
  match t.get? p with
  | some (.file content) => (decode? content).map fun s => String.ofList (translate s)
  | _ => none

/-! ## Front matter -/

structure Head where
  name : String
  description : String
  deriving DecidableEq, Repr

def headLine (head : Head) (line : List Char) : Head :=
  let line := strip line
  if "name:".toList.isPrefixOf line then { head with name := String.ofList (strip (line.drop 5)) }
  else if "description:".toList.isPrefixOf line then { head with description := String.ofList (strip (line.drop 12)) }
  else head

/-- `text.split("\n")`. -/
def lines (text : List Char) : List (List Char) := (Lines.split '\n' text).1 ++ [(Lines.split '\n' text).2]

def rule : List Char := "---".toList

/-- What stands between a rule at the beginning and the next, and what stands behind that. -/
def frontMatter (content : List Char) : Option (List Char × List Char) :=
  (rule.isPrefixOf? content).bind (splitFirst rule)

/-- The name, the description and the instructions of a `SKILL.md` in a directory. -/
def parseSkillMd (entry content : String) : Head × String :=
  match frontMatter content.toList with
  | some (front, rest) => ((lines (strip front)).foldl headLine ⟨entry, ""⟩, String.ofList (strip rest))
  | none => (⟨entry, ""⟩, content)

/-! ## Directories -/

def depFiles : List Path := [["requirements.txt"], ["package.json"]]

def subdirs : List String := ["scripts", "references", "assets"]

/-- The files that go with a skill, as they are in its directory. -/
def auxiliary (t : Disk) (dir : Path) : List Path :=
  (depFiles ++ subdirs.flatMap fun sub => (t.listdir (dir ++ [sub])).map fun fname => [sub, fname]).filter fun p =>
    t.isFile (dir ++ p)

def pathText (p : Path) : String := "/".intercalate p

def skillFile (t : Disk) (dir p : Path) : Option SkillFile :=
  (readFile t (dir ++ p)).map fun content => ⟨pathText p, content⟩

def parseSkill (t : Disk) (base : Path) (entry : String) : Option ParsedSkill :=
  (readFile t (base ++ [entry, "SKILL.md"])).bind fun content =>
    ((auxiliary t (base ++ [entry])).mapM (skillFile t (base ++ [entry]))).map fun files =>
      let (head, instructions) := parseSkillMd entry content
      ⟨head.name, head.description, instructions, files⟩

def skillDirs (t : Disk) (base : Path) : List String :=
  (t.listdir base).filter fun entry => t.isFile (base ++ [entry, "SKILL.md"])

def parseSkillsFromDirectory (t : Disk) (base : Path) : Option (List ParsedSkill) :=
  (skillDirs t base).mapM (parseSkill t base)

/-! ## What is parsed -/

theorem mapM_cases {α β : Type} (f : α → Option β) (l : List α) :
    (∃ a ∈ l, f a = none) ∧ l.mapM f = none ∨ (∀ a ∈ l, (f a).isSome = true) ∧ l.mapM f = some (l.filterMap f) := by
  induction l with
  | nil => exact .inr ⟨nofun, rfl⟩
  | cons a l ih =>
    rw [List.mapM_cons]
    cases ha : f a with
    | none => exact .inl ⟨⟨a, List.mem_cons_self, ha⟩, rfl⟩
    | some b =>
      rcases ih with ⟨⟨a', ha', hnone⟩, hl⟩ | ⟨hall, hl⟩
      · refine .inl ⟨⟨a', List.mem_cons_of_mem a ha', hnone⟩, ?_⟩
        rw [hl]
        rfl
      · refine .inr ⟨List.forall_mem_cons.mpr ⟨by rw [ha]; rfl, hall⟩, ?_⟩
        rw [hl, List.filterMap_cons_some ha]
        rfl

/-- Every file that is read of a skill's directory. -/
def readPaths (t : Disk) (dir : Path) : List Path := ["SKILL.md"] :: auxiliary t dir

/-- A file of UTF-8. -/
def IsText (t : Disk) (p : Path) : Prop := ∀ content, t.get? p = some (.file content) → (decode? content).isSome = true

theorem readFile_isSome {t : Disk} {p : Path} (h : t.isFile p = true) : (readFile t p).isSome = true ↔ IsText t p := by
  obtain ⟨content, hcontent⟩ := FileTree.isFile_iff.mp h
  unfold readFile IsText
  rw [hcontent]
  dsimp only
  rw [Option.isSome_map]
  constructor
  · rintro hsome content' heq
    cases heq
    exact hsome
  · exact fun hall => hall content rfl

theorem parseSkill_isSome_iff {t : Disk} {base : Path} {entry : String} (h : entry ∈ skillDirs t base) :
    (parseSkill t base entry).isSome = true ↔ ∀ p ∈ readPaths t (base ++ [entry]), IsText t (base ++ [entry] ++ p) := by
  have hmd := (List.mem_filter.mp h).2
  have hpath : base ++ [entry] ++ ["SKILL.md"] = base ++ [entry, "SKILL.md"] := by simp
  have haux : ((auxiliary t (base ++ [entry])).mapM (skillFile t (base ++ [entry]))).isSome = true ↔
      ∀ p ∈ auxiliary t (base ++ [entry]), IsText t (base ++ [entry] ++ p) := by
    have hone : ∀ p ∈ auxiliary t (base ++ [entry]),
        ((skillFile t (base ++ [entry]) p).isSome = true ↔ IsText t (base ++ [entry] ++ p)) := by
      intro p hp
      rw [skillFile, Option.isSome_map]
      exact readFile_isSome (List.mem_filter.mp hp).2
    rcases mapM_cases (skillFile t (base ++ [entry])) (auxiliary t (base ++ [entry])) with ⟨⟨p, hp, hnone⟩, hm⟩ | ⟨hall, hm⟩
    · rw [hm]
      refine iff_of_false nofun fun htext => ?_
      have hsome := (hone p hp).mpr (htext p hp)
      rw [hnone] at hsome
      cases hsome
    · rw [hm]
      exact iff_of_true rfl fun p hp => (hone p hp).mp (hall p hp)
  unfold parseSkill readPaths
  rw [List.forall_mem_cons, ← haux, hpath, ← readFile_isSome hmd]
  cases readFile t (base ++ [entry, "SKILL.md"]) with
  | none => simp
  | some content => simp

/-- Either a skill raises, or the skills are those that do not. -/
theorem parseSkillsFromDirectory_cases (t : Disk) (base : Path) :
    (∃ entry ∈ skillDirs t base, parseSkill t base entry = none) ∧ parseSkillsFromDirectory t base = none ∨
      (∀ entry ∈ skillDirs t base, (parseSkill t base entry).isSome = true) ∧
        parseSkillsFromDirectory t base = some ((skillDirs t base).filterMap (parseSkill t base)) :=
  mapM_cases (parseSkill t base) (skillDirs t base)

/-! ## Names and descriptions out of front matter -/

/-- One line with nothing around it and no rule in it. -/
structure Plain (s : List Char) : Prop where
  stripped : strip s = s
  one_line : '\n' ∉ s
  no_return : '\r' ∉ s
  no_rule : ¬ rule <:+: s

theorem Plain.nil : Plain [] := ⟨rfl, List.not_mem_nil, List.not_mem_nil, by decide⟩

/-- What is taken of a line of front matter. -/
theorem plain_drop {line : List Char} (hline : '\n' ∉ line) (hreturn : '\r' ∉ line) (hrule : ¬ rule <:+: line) (n : Nat) :
    Plain (strip ((strip line).drop n)) := by
  have hwithin : strip ((strip line).drop n) <:+: line :=
    (strip_within _).trans ((List.drop_suffix n _).isInfix.trans (strip_within _))
  exact ⟨strip_strip _, fun h => hline (hwithin.subset h), fun h => hreturn (hwithin.subset h),
    fun h => hrule (h.trans hwithin)⟩

/-- A line of front matter leaves a plain name and a plain description. -/
theorem headLine_plain (head : Head) {line : List Char} (hline : '\n' ∉ line) (hreturn : '\r' ∉ line)
    (hrule : ¬ rule <:+: line) (hdesc : Plain head.description.toList) :
    Plain (headLine head line).description.toList ∧
      (Plain head.name.toList ∨ "name:".toList.isPrefixOf (strip line) = true → Plain (headLine head line).name.toList) := by
  have hdrop := plain_drop hline hreturn hrule
  simp only [headLine]
  split
  · refine ⟨hdesc, fun _ => ?_⟩
    rw [String.toList_ofList]
    exact hdrop 5
  · rename_i hname
    split
    · refine ⟨?_, fun h => h.resolve_right hname⟩
      rw [String.toList_ofList]
      exact hdrop 12
    · exact ⟨hdesc, fun h => h.resolve_right hname⟩

theorem headLines_plain {front : List (List Char)}
    (hfront : ∀ line ∈ front, '\n' ∉ line ∧ '\r' ∉ line ∧ ¬ rule <:+: line) {head : Head}
    (hdesc : Plain head.description.toList) :
    Plain (front.foldl headLine head).description.toList ∧
      (Plain head.name.toList → Plain (front.foldl headLine head).name.toList) := by
  induction front generalizing head with
  | nil => exact ⟨hdesc, id⟩
  | cons line front ih =>
    obtain ⟨⟨hline, hreturn, hrule⟩, hrest⟩ := List.forall_mem_cons.mp hfront
    obtain ⟨hd, hn⟩ := headLine_plain head hline hreturn hrule hdesc
    obtain ⟨hd', hn'⟩ := ih hrest hd
    exact ⟨hd', fun h => hn' (hn (.inl h))⟩

theorem lines_plain (text : List Char) (hreturn : '\r' ∉ text) (hrule : ¬ rule <:+: text) :
    ∀ line ∈ lines text, '\n' ∉ line ∧ '\r' ∉ line ∧ ¬ rule <:+: line := by
  intro line hline
  have hwithin := Lines.split_infix hline
  refine ⟨?_, fun h => hreturn (hwithin.subset h), fun h => hrule (h.trans hwithin)⟩
  rcases List.mem_append.mp hline with h | h
  · exact (Lines.mem_split h).1
  · rw [List.mem_singleton.mp h]
    exact Lines.split_rest_notin '\n' text

/-- What has no white space at its beginning keeps it. -/
theorem prefix_strip {a : List Char} (ha : ∀ c ∈ a, isSpace c = false) (s : List Char) : a <+: strip (a ++ s) := by
  cases a with
  | nil => exact List.nil_prefix
  | cons c a =>
    obtain ⟨front, back, heq, hfront, hback⟩ := strip_spec (c :: a ++ s)
    have hnil : front = [] := by
      cases front with
      | nil => rfl
      | cons d front =>
        rw [List.cons_append, List.cons_append, List.cons_append] at heq
        have hspace := hfront d (List.mem_cons_self ..)
        rw [← (List.cons.inj heq).1, ha c (List.mem_cons_self ..)] at hspace
        cases hspace
    rw [hnil, List.nil_append] at heq
    have hstrip : strip (c :: a ++ s) <+: c :: a ++ s := ⟨back, heq.symm⟩
    rcases List.prefix_or_prefix_of_prefix (List.prefix_append (c :: a) s) hstrip with h | h
    · exact h
    · obtain ⟨r, hr⟩ := h
      cases r with
      | nil =>
        rw [List.append_nil] at hr
        rw [hr]
      | cons d r =>
        generalize strip (c :: a ++ s) = m at heq hr
        have hcancel : back = d :: r ++ s := by
          rw [← hr, List.append_assoc, List.append_cancel_left_eq] at heq
          exact heq.symm
        have hspace := hback d (by rw [hcancel]; exact List.mem_cons_self ..)
        rw [ha d (by rw [← hr]; simp)] at hspace
        cases hspace

theorem lines_append {a : List Char} (ha : '\n' ∉ a) (s : List Char) :
    ∃ line more, lines s = line :: more ∧ lines (a ++ s) = (a ++ line) :: more := by
  induction s using Lines.lines_induction '\n' with
  | hlast s hs =>
    refine ⟨s, [], ?_, ?_⟩
    · rw [lines, Lines.split_notin hs]
      rfl
    · rw [lines, Lines.split_notin (by simp [ha, hs])]
      rfl
  | hline line b hline _ =>
    refine ⟨line, lines b, ?_, ?_⟩
    · rw [lines, Lines.split_line hline]
      rfl
    · rw [lines, ← List.append_assoc, Lines.split_line (by simp [ha, hline])]
      rfl

def nameKey : List Char := "name:".toList

theorem bare_of {key : List Char} (h : key.any isSpace = false) : ∀ c ∈ key, isSpace c = false := by
  intro c hc
  cases hspace : isSpace c with
  | false => rfl
  | true =>
    rw [List.any_eq_true.mpr ⟨c, hc, hspace⟩] at h
    cases h

theorem nameKey_bare : (∀ c ∈ nameKey, isSpace c = false) ∧ '\n' ∉ nameKey := ⟨bare_of (by decide), by decide⟩

/-- Front matter that begins with a line for the name. -/
theorem parse_named {entry content : String} {front rest : List Char} (hreturn : '\r' ∉ content.toList)
    (hfront : frontMatter content.toList = some ('\n' :: (nameKey ++ front), rest)) :
    Plain (parseSkillMd entry content).1.name.toList ∧ Plain (parseSkillMd entry content).1.description.toList ∧
      '\r' ∉ (parseSkillMd entry content).2.toList := by
  obtain ⟨s, hs, hsplit⟩ := Option.bind_eq_some_iff.mp hfront
  have hcontent : content.toList = rule ++ ('\n' :: (nameKey ++ front) ++ rule ++ rest) := by
    rw [isPrefixOf?_some hs, splitFirst_some hsplit]
  have hrule : ¬ rule <:+: '\n' :: (nameKey ++ front) := not_infix_before (by decide) hsplit
  have hinside : '\r' ∉ '\n' :: (nameKey ++ front) := by
    intro h
    refine hreturn ?_
    rw [hcontent, List.append_assoc]
    exact List.mem_append_right _ (List.mem_append_left _ h)
  have hstrip : strip ('\n' :: (nameKey ++ front)) = strip (nameKey ++ front) :=
    strip_cons rfl (nameKey ++ front)
  have hwithin := strip_within ('\n' :: (nameKey ++ front))
  have hplain := lines_plain (strip ('\n' :: (nameKey ++ front))) (fun h => hinside (hwithin.subset h))
    (fun h => hrule (h.trans hwithin))
  obtain ⟨more, hmore⟩ := prefix_strip nameKey_bare.1 front
  obtain ⟨line, rows, -, hlines⟩ := lines_append nameKey_bare.2 more
  rw [hstrip] at hplain
  have hall := hlines
  rw [hmore] at hall
  rw [hall] at hplain
  obtain ⟨⟨hline, hlreturn, hlrule⟩, hrows⟩ := List.forall_mem_cons.mp hplain
  have hparse : parseSkillMd entry content =
      (rows.foldl headLine (headLine ⟨entry, ""⟩ (nameKey ++ line)), String.ofList (strip rest)) := by
    rw [parseSkillMd, hfront]
    dsimp only
    rw [hstrip, hall, List.foldl_cons]
  obtain ⟨hdesc, hname⟩ := headLine_plain ⟨entry, ""⟩ hline hlreturn hlrule Plain.nil
  obtain ⟨hdesc', hname'⟩ := headLines_plain hrows hdesc
  rw [hparse]
  refine ⟨hname' (hname (.inr ?_)), hdesc', ?_⟩
  · exact List.isPrefixOf_iff_prefix.mpr (prefix_strip nameKey_bare.1 line)
  · rw [String.toList_ofList]
    intro h
    refine hreturn ?_
    rw [hcontent]
    exact List.mem_append_right _ (List.mem_append_right _ (strip_subset rest h))

/-- A line of front matter. -/
def keyLine (key value : List Char) : List Char := key ++ ' ' :: value

def descriptionKey : List Char := "description:".toList

theorem strip_keyLine {key value : List Char} (hkey : ∀ c ∈ key, isSpace c = false) (hne : key ≠ [])
    (hvalue : strip value = value) : strip (keyLine key value) = if value = [] then key else keyLine key value := by
  have hhead : ∀ s c, (key ++ s).head? = some c → isSpace c = false := by
    intro s c hc
    obtain ⟨d, key', rfl⟩ := List.exists_cons_of_ne_nil hne
    cases hc
    exact hkey c (List.mem_cons_self ..)
  split
  · rename_i hnil
    rw [hnil]
    have hspace : ∀ c ∈ [' '], isSpace c = true := List.forall_mem_singleton.mpr rfl
    refine strip_append (fun c hc => hkey c (List.mem_of_mem_head? hc)) ?_ hspace
    intro c hc
    exact hkey c (List.mem_of_mem_getLast? hc)
  · rename_i hv
    have happ : strip (keyLine key value ++ []) = keyLine key value := by
      refine strip_append (hhead _) ?_ nofun
      intro c hc
      rw [keyLine, List.getLast?_append, List.getLast?_cons_of_ne_nil hv] at hc
      obtain ⟨d, hd⟩ : ∃ d, value.getLast? = some d := ⟨_, List.getLast?_eq_some_getLast hv⟩
      rw [hd] at hc
      cases hc
      rw [← hvalue] at hd
      exact strip_last _ hd
    rwa [List.append_nil] at happ

/-- The value of a line is read. -/
theorem keyLine_value {key value : List Char} (hkey : ∀ c ∈ key, isSpace c = false) (hne : key ≠ [])
    (hvalue : strip value = value) : strip ((strip (keyLine key value)).drop key.length) = value := by
  rw [strip_keyLine hkey hne hvalue]
  split
  · rename_i hnil
    rw [hnil, List.drop_length]
    rfl
  · rw [keyLine, List.drop_left]
    have hspace : strip (' ' :: value) = strip value := strip_cons rfl value
    rw [hvalue] at hspace
    exact hspace

theorem keyLine_no_rule {key value : List Char} (hkey : ¬ rule <:+: key) (hvalue : ¬ rule <:+: value) :
    ¬ rule <:+: keyLine key value := by
  have hjoin : ¬ rule <:+: [' '].intercalate [key, value] :=
    not_infix_join (by decide) (by decide) (by simp [hkey, hvalue])
  rwa [List.intercalate_cons_cons, List.intercalate_singleton, List.append_assoc] at hjoin

theorem descriptionKey_bare : (∀ c ∈ descriptionKey, isSpace c = false) ∧ descriptionKey ≠ [] ∧ '\n' ∉ descriptionKey :=
  ⟨bare_of (by decide), by decide, by decide⟩

theorem headLine_name {value : List Char} (hvalue : strip value = value) (head : Head) :
    headLine head (keyLine nameKey value) = { head with name := String.ofList value } := by
  have hprefix : "name:".toList.isPrefixOf (strip (keyLine nameKey value)) = true :=
    List.isPrefixOf_iff_prefix.mpr (prefix_strip nameKey_bare.1 _)
  have hread := keyLine_value nameKey_bare.1 (by decide) hvalue
  simp only [headLine]
  rw [if_pos hprefix]
  exact congrArg (fun name => Head.mk (String.ofList name) head.description) hread

theorem headLine_description {value : List Char} (hvalue : strip value = value) (head : Head) :
    headLine head (strip (keyLine descriptionKey value)) = { head with description := String.ofList value } := by
  obtain ⟨more, hmore⟩ := prefix_strip descriptionKey_bare.1 (' ' :: value)
  have hprefix : "description:".toList.isPrefixOf (strip (keyLine descriptionKey value)) = true :=
    List.isPrefixOf_iff_prefix.mpr ⟨more, hmore⟩
  have hname : "name:".toList.isPrefixOf (strip (keyLine descriptionKey value)) = false := by
    rw [keyLine, ← hmore]
    rfl
  have hread := keyLine_value descriptionKey_bare.1 descriptionKey_bare.2.1 hvalue
  simp only [headLine]
  rw [strip_strip, if_neg (by rw [hname]; exact Bool.false_ne_true), if_pos hprefix]
  exact congrArg (fun d => Head.mk head.name (String.ofList d)) hread

section Written

variable {name description : List Char}

/-- Front matter as it is written. -/
def frontText (name description : List Char) : List Char :=
  '\n' :: (keyLine nameKey name ++ '\n' :: keyLine descriptionKey description)

theorem frontText_no_rule (hname : Plain name) (hdesc : Plain description) : ¬ rule <:+: frontText name description := by
  have hpieces : ∀ piece ∈ [[], keyLine nameKey name, keyLine descriptionKey description], ¬ rule <:+: piece := by
    intro piece hpiece
    simp only [List.mem_cons, List.not_mem_nil, or_false] at hpiece
    rcases hpiece with rfl | rfl | rfl
    · decide
    · exact keyLine_no_rule (by decide) hname.no_rule
    · exact keyLine_no_rule (by decide) hdesc.no_rule
  have hjoin : ¬ rule <:+: ['\n'].intercalate [[], keyLine nameKey name, keyLine descriptionKey description] :=
    not_infix_join (by decide) (by decide) hpieces
  simpa [frontText, List.intercalate_cons_cons] using hjoin

theorem strip_frontText (hdesc : Plain description) :
    strip (frontText name description ++ ['\n']) =
      keyLine nameKey name ++ '\n' :: strip (keyLine descriptionKey description) := by
  have hdescription := strip_keyLine descriptionKey_bare.1 descriptionKey_bare.2.1 hdesc.stripped
  obtain ⟨back, hback, hspace⟩ : ∃ back, keyLine descriptionKey description =
      strip (keyLine descriptionKey description) ++ back ∧ ∀ c ∈ back, isSpace c = true := by
    rw [hdescription]
    split
    · rename_i hnil
      exact ⟨[' '], by rw [hnil]; rfl, List.forall_mem_singleton.mpr rfl⟩
    · exact ⟨[], (List.append_nil _).symm, nofun⟩
  have hne : strip (keyLine descriptionKey description) ≠ [] := by
    obtain ⟨more, hmore⟩ := prefix_strip descriptionKey_bare.1 (' ' :: description)
    rw [keyLine, ← hmore]
    exact nofun
  have happ : frontText name description ++ ['\n'] =
      ['\n'] ++ ((keyLine nameKey name ++ '\n' :: strip (keyLine descriptionKey description)) ++ (back ++ ['\n'])) := by
    rw [frontText, hback, ← hback]
    generalize strip (keyLine descriptionKey description) = line at hback
    rw [hback]
    simp
  rw [happ, strip_front (List.forall_mem_singleton.mpr rfl)]
  refine strip_append ?_ ?_ ?_
  · intro c hc
    cases hc
    rfl
  · intro c hc
    rw [List.getLast?_append, List.getLast?_cons_of_ne_nil hne] at hc
    obtain ⟨d, hd⟩ : ∃ d, (strip (keyLine descriptionKey description)).getLast? = some d :=
      ⟨_, List.getLast?_eq_some_getLast hne⟩
    rw [hd] at hc
    cases hc
    exact strip_last _ hd
  · intro c hc
    rcases List.mem_append.mp hc with hc | hc
    · exact hspace c hc
    · rw [List.mem_singleton.mp hc]
      rfl

/-- A `SKILL.md` of a plain name and a plain description. -/
theorem parse_plain (hname : Plain name) (hdesc : Plain description) (entry : String) (rest : List Char) :
    parseSkillMd entry (String.ofList (rule ++ (frontText name description ++ '\n' :: (rule ++ rest)))) =
      (⟨String.ofList name, String.ofList description⟩, String.ofList (strip rest)) := by
  have hsplit : splitFirst rule (frontText name description ++ '\n' :: (rule ++ rest)) =
      some (frontText name description ++ ['\n'], rest) := by
    rw [splitFirst_sep (by decide) (by decide), splitFirst_none_iff.mpr (frontText_no_rule hname hdesc),
      splitFirst_self (by decide)]
    rfl
  have hfront : frontMatter (rule ++ (frontText name description ++ '\n' :: (rule ++ rest))) =
      some (frontText name description ++ ['\n'], rest) := by
    rw [frontMatter, List.isPrefixOf?_eq_some_iff_append_eq.mpr rfl, Option.bind_some, hsplit]
  have hlines : lines (keyLine nameKey name ++ '\n' :: strip (keyLine descriptionKey description)) =
      [keyLine nameKey name, strip (keyLine descriptionKey description)] := by
    have hone : '\n' ∉ keyLine nameKey name := by
      simp [keyLine, nameKey_bare.2, hname.one_line]
    have htwo : '\n' ∉ strip (keyLine descriptionKey description) := by
      intro h
      have hmem := strip_subset _ h
      simp [keyLine, descriptionKey_bare.2.2, hdesc.one_line] at hmem
    rw [lines, Lines.split_line hone, Lines.split_notin htwo]
    rfl
  rw [parseSkillMd, String.toList_ofList, hfront]
  dsimp only
  rw [strip_frontText hdesc, hlines, List.foldl_cons, List.foldl_cons, List.foldl_nil, headLine_name hname.stripped,
    headLine_description hdesc.stripped]

end Written

end Errand.Server.SkillDirectories

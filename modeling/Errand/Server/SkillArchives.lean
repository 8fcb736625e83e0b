import Errand.Server.SkillDirectories

/-
  Errand.Server.SkillArchives — skills on their way into a container
  (`build_skills_archive`, errand/task_manager.py), and what is accepted as one
  (`validate_skill_name`, `validate_skill_file_path`, `create_skill` and `add_skill_file`,
  errand/main.py; `upsert_skill`, errand/mcp_server.py).

  Names and file paths are pasted into the members' names, the description into a line of
  front matter. A member's name ends at a NUL; it is resolved as a path, segment by segment.

  Proved:
  - `accepted_written`, `parsed_written`: the files of a skill that is accepted or parsed have
    distinct paths of the two shapes.
  - `arrives_iff`: skills arrive as they were written, each under its own directory, exactly if
    each is intact.
  - `a_description_of_two_lines`: a skill that does not.
-/

namespace Errand.Server.SkillArchives

open Errand.Lib Errand.Lib.PyStr Errand.Lib.Search Errand.Runner.EditFile Errand.Server.Skills
  Errand.Server.SkillDirectories

/-! ## The archive -/

/-- `f"---\nname: {name}\ndescription: {description}\n---\n\n{instructions}"`. -/
def skillMd (s : ParsedSkill) : List Char :=
  rule ++ (frontText s.name.toList s.description.toList ++ '\n' :: (rule ++ '\n' :: '\n' :: s.instructions.toList))

example : skillMd ⟨"post", "Posts.", "# Post", []⟩ = "---\nname: post\ndescription: Posts.\n---\n\n# Post".toList := by
  decide

structure Member where
  name : List Char
  content : List UInt8
  deriving DecidableEq, Repr

/-- `f"skills/{name}/{path}"`. -/
def memberName (skill path : List Char) : List Char := "skills".toList ++ '/' :: (skill ++ '/' :: path)

def members (s : ParsedSkill) : List Member :=
  ⟨memberName s.name.toList "SKILL.md".toList, Utf8.encode (skillMd s)⟩ ::
    s.files.map fun f => ⟨memberName s.name.toList f.path.toList, Utf8.encode f.content.toList⟩

/-- `build_skills_archive`. -/
def buildSkillsArchive (skills : List ParsedSkill) : List Member := skills.flatMap members

/-! ## Extraction -/

def segments (name : List Char) : List String :=
  let name := name.takeWhile (· ≠ '\x00')
  ((Lines.split '/' name).1 ++ [(Lines.split '/' name).2]).map String.ofList

/-- None if it leads out of the directory it is resolved in. -/
def resolveFrom (path : Path) : List String → Option Path
  | [] => some path
  | seg :: segs =>
    if seg = "" ∨ seg = "." then resolveFrom path segs
    else if seg = ".." then
      if path = [] then none else resolveFrom path.dropLast segs
    else resolveFrom (path ++ [seg]) segs

def resolve (name : List Char) : Option Path := resolveFrom [] (segments name)

def emptyDisk : Disk := ⟨[], fun _ _ _ _ h => absurd rfl h⟩

def extract (archive : List Member) : Option Disk :=
  (archive.mapM fun m => (resolve m.name).map fun path => (path, m.content)).bind fun files =>
    FileTree.unpack files emptyDisk

/-! ## What is accepted -/

def isNameChar (c : Char) : Bool := ('a' ≤ c && c ≤ 'z') || ('0' ≤ c && c ≤ '9')

/-- `^[a-z0-9]([a-z0-9-]*[a-z0-9])?$`; `$` is in front of a line break at the end too. -/
def matchesNameRe (name : List Char) : Bool :=
  let body := if name.getLast? = some '\n' then name.dropLast else name
  body ≠ [] && body.all (fun c => isNameChar c || c = '-') && body.head?.all isNameChar && body.getLast?.all isNameChar

/-- Both `validate_skill_name`; the API's refuses two hyphens in a row. -/
def validSkillName (hyphens : Bool) (name : List Char) : Bool :=
  name ≠ [] && name.length ≤ 64 && lower name = name && (hyphens || !decide ("--".toList <:+: name)) && matchesNameRe name

/-- `validate_skill_file_path`, and the same of `upsert_skill`. -/
def validFilePath (path : List Char) : Bool :=
  match Lines.split '/' path with
  | ([sub], fname) => sub ≠ [] && fname ≠ [] && subdirs.contains (String.ofList sub)
  | _ => false

/-- The database takes no NUL. -/
def storable (s : ParsedSkill) : Bool :=
  [s.name, s.description, s.instructions].all (fun t => !t.toList.contains '\x00') &&
    s.files.all fun f => !f.path.toList.contains '\x00' && !f.content.toList.contains '\x00'

def validFiles (files : List SkillFile) : Bool :=
  files.all (fun f => validFilePath f.path.toList) && decide (files.map (·.path)).Nodup

/-- A skill of the API. -/
def apiAccepts (s : ParsedSkill) : Bool :=
  validSkillName false s.name.toList && s.description ≠ "" && s.description.length ≤ 1024 && s.instructions ≠ "" &&
    validFiles s.files && s.files.all (·.content ≠ "") && storable s

/-- A skill of `upsert_skill`. -/
def upsertAccepts (s : ParsedSkill) : Bool :=
  validSkillName true s.name.toList && s.description.length ≤ 1024 && validFiles s.files && storable s

/-! ## Segments -/

/-- The name something can have in a directory. -/
structure Segment (c : String) : Prop where
  ne : c ≠ ""
  ne_dot : c ≠ "."
  ne_dots : c ≠ ".."
  no_slash : '/' ∉ c.toList
  no_nul : '\x00' ∉ c.toList

theorem segments_cons {a : List Char} (hslash : '/' ∉ a) (hnul : '\x00' ∉ a) (b : List Char) :
    segments (a ++ '/' :: b) = String.ofList a :: segments b := by
  have hkeep : ∀ c ∈ a, decide (c ≠ '\x00') = true := by
    intro c hc
    rw [decide_eq_true_eq]
    rintro rfl
    exact hnul hc
  unfold segments
  rw [List.takeWhile_append_of_pos hkeep, List.takeWhile_cons_of_pos (by decide)]
  dsimp only
  rw [Lines.split_line hslash]
  rfl

theorem segments_single {a : List Char} (hslash : '/' ∉ a) (hnul : '\x00' ∉ a) : segments a = [String.ofList a] := by
  have hkeep : a.takeWhile (· ≠ '\x00') = a := by
    rw [List.takeWhile_eq_self_iff]
    intro c hc
    rw [decide_eq_true_eq]
    rintro rfl
    exact hnul hc
  unfold segments
  rw [hkeep]
  dsimp only
  rw [Lines.split_notin hslash]
  rfl

theorem mem_segments {name : List Char} {c : String} (h : c ∈ segments name) : '/' ∉ c.toList ∧ '\x00' ∉ c.toList := by
  obtain ⟨part, hpart, rfl⟩ := List.mem_map.mp h
  rw [String.toList_ofList]
  have hwithin := Lines.split_infix hpart
  refine ⟨?_, fun hnul => ?_⟩
  · rcases List.mem_append.mp hpart with h | h
    · exact (Lines.mem_split h).1
    · rw [List.mem_singleton.mp h]
      exact Lines.split_rest_notin '/' _
  · have hkept := List.mem_takeWhile_imp (hwithin.subset hnul)
    simp at hkept

/-- What a path resolves to has proper names. -/
theorem resolveFrom_segments {path p : Path} {segs : List String} (hsegs : ∀ c ∈ segs, '/' ∉ c.toList ∧ '\x00' ∉ c.toList)
    (hpath : ∀ c ∈ path, Segment c) (h : resolveFrom path segs = some p) : ∀ c ∈ p, Segment c := by
  induction segs generalizing path with
  | nil =>
    cases h
    exact hpath
  | cons seg segs ih =>
    obtain ⟨hseg, hrest⟩ := List.forall_mem_cons.mp hsegs
    rw [resolveFrom] at h
    split at h
    · exact ih hrest hpath h
    · rename_i hdot
      split at h
      · split at h
        · cases h
        · exact ih hrest (fun c hc => hpath c (List.mem_of_mem_dropLast hc)) h
      · rename_i hdots
        refine ih hrest ?_ h
        intro c hc
        rcases List.mem_append.mp hc with hc | hc
        · exact hpath c hc
        · rw [List.mem_singleton.mp hc]
          exact ⟨fun heq => hdot (.inl heq), fun heq => hdot (.inr heq), hdots, hseg.1, hseg.2⟩

theorem resolve_segments {name : List Char} {p : Path} (h : resolve name = some p) : ∀ c ∈ p, Segment c :=
  resolveFrom_segments (fun _ hc => mem_segments hc) (fun _ hc => absurd hc List.not_mem_nil) h

theorem resolveFrom_cons (path : Path) {seg : String} (h : seg ≠ "" ∧ seg ≠ "." ∧ seg ≠ "..") (segs : List String) :
    resolveFrom path (seg :: segs) = resolveFrom (path ++ [seg]) segs := by
  rw [resolveFrom, if_neg (not_or.mpr ⟨h.1, h.2.1⟩), if_neg h.2.2]

theorem resolveFrom_all (path : Path) {segs : List String} (h : ∀ c ∈ segs, c ≠ "" ∧ c ≠ "." ∧ c ≠ "..") :
    resolveFrom path segs = some (path ++ segs) := by
  induction segs generalizing path with
  | nil => rw [resolveFrom, List.append_nil]
  | cons seg segs ih =>
    obtain ⟨hseg, hrest⟩ := List.forall_mem_cons.mp h
    rw [resolveFrom_cons path hseg, ih _ hrest, List.append_assoc]
    rfl

theorem skills_segment : Segment "skills" := ⟨by decide, by decide, by decide, by decide, by decide⟩

theorem resolve_under {top skill : String} (ht : Segment top) (h : Segment skill) (path : List Char) :
    resolve (top.toList ++ '/' :: (skill.toList ++ '/' :: path)) = resolveFrom [top, skill] (segments path) := by
  have hsegments : segments (top.toList ++ '/' :: (skill.toList ++ '/' :: path)) = top :: skill :: segments path := by
    rw [segments_cons ht.no_slash ht.no_nul, segments_cons h.no_slash h.no_nul, String.ofList_toList, String.ofList_toList]
  rw [resolve, hsegments, resolveFrom_cons [] ⟨ht.ne, ht.ne_dot, ht.ne_dots⟩, resolveFrom_cons _ ⟨h.ne, h.ne_dot, h.ne_dots⟩]
  rfl

/-- The members of a skill whose name is a segment are under its directory, to begin with. -/
theorem resolve_member {skill : String} (h : Segment skill) (path : List Char) :
    resolve (memberName skill.toList path) = resolveFrom ["skills", skill] (segments path) :=
  resolve_under skills_segment h path

/-! ## Files -/

/-- The two shapes of a skill's file paths. -/
def FilePath (path : List Char) : Prop :=
  path = "requirements.txt".toList ∨ path = "package.json".toList ∨
    ∃ sub ∈ subdirs, ∃ fname : List Char, fname ≠ [] ∧ '/' ∉ fname ∧ '\x00' ∉ fname ∧ path = sub.toList ++ '/' :: fname

/-- What the validators and the parser promise of a skill. -/
structure Written (s : ParsedSkill) : Prop where
  paths : ∀ f ∈ s.files, FilePath f.path.toList
  distinct : (s.files.map (·.path)).Nodup

theorem subdirs_segment : ∀ sub ∈ subdirs, Segment sub ∧ sub ≠ "SKILL.md" ∧ sub ≠ "requirements.txt" ∧ sub ≠ "package.json" := by
  intro sub hsub
  simp only [subdirs, List.mem_cons, List.not_mem_nil, or_false] at hsub
  rcases hsub with rfl | rfl | rfl
  · exact ⟨⟨by decide, by decide, by decide, by decide, by decide⟩, by decide, by decide, by decide⟩
  · exact ⟨⟨by decide, by decide, by decide, by decide, by decide⟩, by decide, by decide, by decide⟩
  · exact ⟨⟨by decide, by decide, by decide, by decide, by decide⟩, by decide, by decide, by decide⟩

theorem filePath_cases {path : List Char} (h : FilePath path) :
    (segments path = ["requirements.txt"] ∨ segments path = ["package.json"]) ∨
      ∃ sub ∈ subdirs, ∃ fname : String, fname ≠ "" ∧ segments path = [sub, fname] := by
  rcases h with rfl | rfl | ⟨sub, hsub, fname, hne, hslash, hnul, rfl⟩
  · exact .inl (.inl (by decide))
  · exact .inl (.inr (by decide))
  · have hseg := (subdirs_segment sub hsub).1
    refine .inr ⟨sub, hsub, String.ofList fname, ?_, ?_⟩
    · intro hnil
      exact hne (by simpa using congrArg String.toList hnil)
    · rw [segments_cons hseg.no_slash hseg.no_nul, segments_single hslash hnul, String.ofList_toList]

/-- A path of these shapes is the text of its segments. -/
theorem pathText_segments {path : List Char} (h : FilePath path) : (pathText (segments path)).toList = path := by
  rcases h with rfl | rfl | ⟨sub, hsub, fname, hne, hslash, hnul, rfl⟩
  · decide
  · decide
  · have hseg := (subdirs_segment sub hsub).1
    rw [segments_cons hseg.no_slash hseg.no_nul, segments_single hslash hnul, String.ofList_toList, pathText,
      String.intercalate_cons_cons, String.intercalate_singleton]
    simp

theorem accepted_written {s : ParsedSkill} (h : apiAccepts s = true ∨ upsertAccepts s = true) : Written s := by
  have hparts : validFiles s.files = true ∧ storable s = true := by
    rcases h with h | h
    · simp only [apiAccepts, Bool.and_eq_true] at h
      exact ⟨h.1.1.2, h.2⟩
    · simp only [upsertAccepts, Bool.and_eq_true] at h
      exact ⟨h.1.2, h.2⟩
  obtain ⟨hfiles, hstorable⟩ := hparts
  simp only [validFiles, Bool.and_eq_true, List.all_eq_true, decide_eq_true_eq] at hfiles
  simp only [storable, Bool.and_eq_true, List.all_eq_true] at hstorable
  refine ⟨fun f hf => .inr (.inr ?_), hfiles.2⟩
  have hvalid := hfiles.1 f hf
  have hnul := (hstorable.2 f hf).1
  simp only [Bool.not_eq_true', List.contains_eq_mem, decide_eq_false_iff_not] at hnul
  unfold validFilePath at hvalid
  split at hvalid
  · rename_i sub fname hsplit
    simp only [Bool.and_eq_true, decide_eq_true_eq, List.contains_eq_mem] at hvalid
    have hjoin := Lines.join_split '/' f.path.toList
    have hrest := Lines.split_rest_notin '/' f.path.toList
    rw [hsplit] at hjoin hrest
    have hpath : f.path.toList = sub ++ '/' :: fname := by simpa using hjoin.symm
    refine ⟨String.ofList sub, hvalid.2, fname, hvalid.1.2, hrest, fun hmem => hnul ?_, ?_⟩
    · rw [hpath]
      exact List.mem_append_right _ (List.mem_cons_of_mem _ hmem)
    · rw [String.toList_ofList, hpath]
  · cases hvalid

/-! ## Arrival -/

/-- The same skill, but for white space around its instructions and the order of its files. -/
structure Same (a b : ParsedSkill) : Prop where
  name : a.name = b.name
  description : a.description = b.description
  instructions : strip a.instructions.toList = strip b.instructions.toList
  files : a.files.Perm b.files

/-- Each member is under its skill's directory, no two are the same, and what is parsed of the
    extracted directory is the skills. -/
structure Arrives (skills : List ParsedSkill) : Prop where
  inside : ∀ s ∈ skills, ∀ m ∈ members s, ∃ rest, rest ≠ [] ∧ resolve m.name = some (["skills", s.name] ++ rest)
  distinct : ((buildSkillsArchive skills).map fun m => resolve m.name).Nodup
  back : ∃ disk parsed l, extract (buildSkillsArchive skills) = some disk ∧
    parseSkillsFromDirectory disk ["skills"] = some parsed ∧ l.Perm parsed ∧ List.Forall₂ Same skills l

structure Intact (s : ParsedSkill) : Prop where
  segment : Segment s.name
  name : Plain s.name.toList
  description : Plain s.description.toList
  instructions : '\r' ∉ strip s.instructions.toList
  paths : ∀ f ∈ s.files, ∀ c ∈ segments f.path.toList, c ≠ "." ∧ c ≠ ".."
  contents : ∀ f ∈ s.files, '\r' ∉ f.content.toList

/-! ### What is on an extracted disk -/

section Extracted

variable {archive : List Member} {disk : Disk}

theorem emptyDisk_get? (p : Path) : emptyDisk.get? p = none := rfl

theorem extract_some (h : extract archive = some disk) :
    ∃ files, FileTree.unpack files emptyDisk = some disk ∧
      ∀ f ∈ files, ∃ m ∈ archive, resolve m.name = some f.1 ∧ m.content = f.2 := by
  obtain ⟨files, hfiles, hunpack⟩ := Option.bind_eq_some_iff.mp h
  refine ⟨files, hunpack, fun f hf => ?_⟩
  rcases mapM_cases (fun m : Member => (resolve m.name).map fun path => (path, m.content)) archive with ⟨-, hnone⟩ | ⟨-, hsome⟩
  · rw [hnone] at hfiles
    cases hfiles
  · rw [hsome] at hfiles
    cases hfiles
    obtain ⟨m, hm, hmf⟩ := List.mem_filterMap.mp hf
    obtain ⟨path, hpath, rfl⟩ := Option.map_eq_some_iff.mp hmf
    exact ⟨m, hm, hpath, rfl⟩

theorem extracted_file (h : extract archive = some disk) {p : Path} {content : List UInt8}
    (hp : disk.get? p = some (.file content)) : ∃ m ∈ archive, resolve m.name = some p ∧ m.content = content := by
  obtain ⟨files, hunpack, hall⟩ := extract_some h
  rcases FileTree.unpack_file hunpack hp with hnone | hmem
  · rw [emptyDisk_get?] at hnone
    cases hnone
  · exact hall _ hmem

/-- What is extracted has proper names. -/
theorem extracted_segments (h : extract archive = some disk) {p : Path} (hp : disk.get? p ≠ none) : ∀ c ∈ p, Segment c := by
  obtain ⟨files, hunpack, hall⟩ := extract_some h
  rcases FileTree.unpack_above hunpack hp with hnone | ⟨f, hf, hpre⟩
  · exact absurd (emptyDisk_get? p) hnone
  · obtain ⟨m, -, hresolve, -⟩ := hall f hf
    exact fun c hc => resolve_segments hresolve c (hpre.subset hc)

end Extracted

theorem decode?_encode (s : List Char) : decode? (Utf8.encode s) = some s := by
  simp only [decode?]
  rw [Utf8.decode_encode, if_pos rfl]

theorem readFile_of {disk : Disk} {p : Path} {s : List Char} (h : disk.get? p = some (.file (Utf8.encode s))) :
    readFile disk p = some (String.ofList (translate s)) := by
  rw [readFile, h]
  dsimp only
  rw [decode?_encode]
  rfl

/-- What is read has no returns. -/
theorem readFile_no_return {disk : Disk} {p : Path} {content : String} (h : readFile disk p = some content) :
    '\r' ∉ content.toList := by
  unfold readFile at h
  split at h
  · obtain ⟨s, -, rfl⟩ := Option.map_eq_some_iff.mp h
    rw [String.toList_ofList]
    exact translate_no_return s
  · cases h

theorem translate_rule {s : List Char} (h : rule <:+: s) : rule <:+: translate s := by
  obtain ⟨a, b, rfl⟩ := h
  have hhead : (rule ++ b).head? ≠ some '\n' := by
    intro hc
    cases hc
  rw [List.append_assoc, translate_append a hhead, translate_front (by decide), ← List.append_assoc]
  exact ⟨_, _, rfl⟩

/-- A `SKILL.md` as it is written has front matter with a line for the name. -/
theorem skillMd_named (s : ParsedSkill) :
    ∃ front rest, frontMatter (translate (skillMd s)) = some ('\n' :: (nameKey ++ front), rest) := by
  obtain ⟨body, hbody, hrule⟩ : ∃ body, skillMd s = rule ++ ('\n' :: (nameKey ++ [' '])) ++ body ∧ rule <:+: body := by
    refine ⟨s.name.toList ++ '\n' :: (keyLine descriptionKey s.description.toList ++
      '\n' :: (rule ++ '\n' :: '\n' :: s.instructions.toList)), ?_, ?_⟩
    · simp [skillMd, frontText, keyLine]
    · exact ⟨s.name.toList ++ '\n' :: (keyLine descriptionKey s.description.toList ++ ['\n']),
        '\n' :: '\n' :: s.instructions.toList, by simp⟩
  have htranslate : translate (skillMd s) = rule ++ ('\n' :: nameKey ++ ' ' :: translate body) := by
    rw [hbody, translate_front (by decide)]
    simp
  obtain ⟨⟨front, rest⟩, hsplit⟩ : ∃ r, splitFirst rule (translate body) = some r :=
    Option.ne_none_iff_exists'.mp fun hnone => splitFirst_none_iff.mp hnone (translate_rule hrule)
  refine ⟨' ' :: front, rest, ?_⟩
  rw [frontMatter, htranslate, List.isPrefixOf?_eq_some_iff_append_eq.mpr rfl, Option.bind_some,
    splitFirst_sep (by decide) (by decide), splitFirst_none_iff.mpr (by decide), hsplit]
  rfl

/-! ### What arrives is intact -/

theorem forall₂_exists {α β : Type} {R : α → β → Prop} {as : List α} {bs : List β} (h : List.Forall₂ R as bs) {a : α}
    (ha : a ∈ as) : ∃ b ∈ bs, R a b := by
  induction h with
  | nil => cases ha
  | cons hab _ ih =>
    rcases List.mem_cons.mp ha with rfl | ha
    · exact ⟨_, List.mem_cons_self .., hab⟩
    · obtain ⟨b, hb, hr⟩ := ih ha
      exact ⟨b, List.mem_cons_of_mem _ hb, hr⟩

theorem mem_archive {skills : List ParsedSkill} {m : Member} (h : m ∈ buildSkillsArchive skills) :
    ∃ s ∈ skills, m ∈ members s := List.mem_flatMap.mp h

theorem mem_members {s : ParsedSkill} {m : Member} (h : m ∈ members s) :
    m = ⟨memberName s.name.toList "SKILL.md".toList, Utf8.encode (skillMd s)⟩ ∨
      ∃ f ∈ s.files, m = ⟨memberName s.name.toList f.path.toList, Utf8.encode f.content.toList⟩ := by
  rcases List.mem_cons.mp h with h | h
  · exact .inl h
  · obtain ⟨f, hf, rfl⟩ := List.mem_map.mp h
    exact .inr ⟨f, hf, rfl⟩

/-- No file of a skill resolves to where its `SKILL.md` is. -/
theorem file_not_skillMd {skill : String} (h : Segment skill) {path : List Char} (hpath : FilePath path) :
    resolve (memberName skill.toList path) ≠ some ["skills", skill, "SKILL.md"] := by
  rw [resolve_member h]
  rcases filePath_cases hpath with (hseg | hseg) | ⟨sub, hsub, fname, hne, hseg⟩
  · rw [hseg, resolveFrom_all _ (by decide)]
    simp
  · rw [hseg, resolveFrom_all _ (by decide)]
    simp
  · obtain ⟨hs, hmd, -⟩ := subdirs_segment sub hsub
    rw [hseg, resolveFrom_cons _ ⟨hs.ne, hs.ne_dot, hs.ne_dots⟩, resolveFrom]
    split
    · simp [resolveFrom, hmd]
    · split
      · simp [resolveFrom]
      · simp [resolveFrom]

section Arrived

variable {skills : List ParsedSkill}

/-- A skill that is parsed of what was extracted comes of one that was written. -/
theorem parsed_of_written (h : Arrives skills) (hw : ∀ s ∈ skills, Written s) {disk : Disk}
    (hdisk : extract (buildSkillsArchive skills) = some disk) {entry : String} (hentry : entry ∈ skillDirs disk ["skills"])
    {p : ParsedSkill} (hp : parseSkill disk ["skills"] entry = some p) :
    Plain p.name.toList ∧ Plain p.description.toList ∧ '\r' ∉ p.instructions.toList := by
  obtain ⟨bytes, hbytes⟩ := FileTree.isFile_iff.mp (List.mem_filter.mp hentry).2
  obtain ⟨m, hm, hresolve, hcontent⟩ := extracted_file hdisk hbytes
  obtain ⟨u, hu, hmu⟩ := mem_archive hm
  obtain ⟨rest, -, hinside⟩ := h.inside u hu m hmu
  rw [hresolve] at hinside
  obtain ⟨rfl, rfl⟩ : entry = u.name ∧ rest = ["SKILL.md"] := by simpa [eq_comm] using hinside
  have hsegment : Segment u.name := resolve_segments hresolve _ (by simp)
  rcases mem_members hmu with rfl | ⟨f, hf, rfl⟩
  · rw [← hcontent] at hbytes
    have hread := readFile_of hbytes
    obtain ⟨front, after, hfront⟩ := skillMd_named u
    obtain ⟨content, hc, hmap⟩ := Option.bind_eq_some_iff.mp hp
    rw [hread] at hc
    cases hc
    obtain ⟨files, -, rfl⟩ := Option.map_eq_some_iff.mp hmap
    have hreturn := translate_no_return (skillMd u)
    have htext : (String.ofList (translate (skillMd u))).toList = translate (skillMd u) := String.toList_ofList
    rw [← htext] at hreturn hfront
    have hnamed := @parse_named u.name _ _ _ hreturn hfront
    generalize parseSkillMd u.name (String.ofList (translate (skillMd u))) = parsed at hnamed ⊢
    exact hnamed
  · exact absurd hresolve (file_not_skillMd hsegment ((hw u hu).paths f hf))

theorem mem_auxiliary {disk : Disk} {dir p : Path} (h : p ∈ auxiliary disk dir) :
    disk.isFile (dir ++ p) = true ∧ (p ∈ depFiles ∨ ∃ sub ∈ subdirs, ∃ fname ∈ disk.listdir (dir ++ [sub]), p = [sub, fname]) := by
  obtain ⟨hmem, hfile⟩ := List.mem_filter.mp h
  refine ⟨hfile, (List.mem_append.mp hmem).imp_right fun hflat => ?_⟩
  obtain ⟨sub, hsub, hin⟩ := List.mem_flatMap.mp hflat
  obtain ⟨fname, hf, rfl⟩ := List.mem_map.mp hin
  exact ⟨sub, hsub, fname, hf, rfl⟩

theorem mem_files {disk : Disk} {entry : String} {p : ParsedSkill} (hp : parseSkill disk ["skills"] entry = some p)
    {f : SkillFile} (hf : f ∈ p.files) :
    ∃ path ∈ auxiliary disk ["skills", entry], skillFile disk ["skills", entry] path = some f := by
  obtain ⟨content, -, hmap⟩ := Option.bind_eq_some_iff.mp hp
  obtain ⟨files, hfiles, rfl⟩ := Option.map_eq_some_iff.mp hmap
  replace hfiles : (auxiliary disk ["skills", entry]).mapM (skillFile disk ["skills", entry]) = some files := hfiles
  rcases mapM_cases (skillFile disk ["skills", entry]) (auxiliary disk ["skills", entry]) with ⟨-, hnone⟩ | ⟨-, hsome⟩
  · rw [hnone] at hfiles
    cases hfiles
  · rw [hsome] at hfiles
    cases hfiles
    exact List.mem_filterMap.mp hf

theorem segments_pathText {disk : Disk} {dir p : Path} (hproper : ∀ c ∈ dir ++ p, Segment c) (h : p ∈ auxiliary disk dir) :
    segments (pathText p).toList = p := by
  rcases (mem_auxiliary h).2 with hdep | ⟨sub, hsub, fname, -, rfl⟩
  · simp only [depFiles, List.mem_cons, List.not_mem_nil, or_false] at hdep
    rcases hdep with rfl | rfl
    · decide
    · decide
  · have hs := (subdirs_segment sub hsub).1
    have hf : Segment fname := hproper fname (by simp)
    have htext : (pathText [sub, fname]).toList = sub.toList ++ '/' :: fname.toList := by
      rw [pathText, String.intercalate_cons_cons, String.intercalate_singleton]
      simp
    rw [htext, segments_cons hs.no_slash hs.no_nul, segments_single hf.no_slash hf.no_nul, String.ofList_toList,
      String.ofList_toList]

theorem intact_of_arrives (h : Arrives skills) (hw : ∀ s ∈ skills, Written s) : ∀ s ∈ skills, Intact s := by
  intro s hs
  have hsegment : Segment s.name := by
    obtain ⟨rest, -, hresolve⟩ := h.inside s hs _ (List.mem_cons_self ..)
    exact resolve_segments hresolve _ (by simp)
  obtain ⟨disk, parsed, l, hdisk, hparse, hperm, hsame⟩ := h.back
  obtain ⟨p, hp, hsp⟩ := forall₂_exists hsame hs
  have hparsed : p ∈ (skillDirs disk ["skills"]).filterMap (parseSkill disk ["skills"]) := by
    rcases parseSkillsFromDirectory_cases disk ["skills"] with ⟨-, hnone⟩ | ⟨-, hsome⟩
    · rw [hnone] at hparse
      cases hparse
    · rw [hsome] at hparse
      cases hparse
      exact hperm.mem_iff.mp hp
  obtain ⟨entry, hentry, hone⟩ := List.mem_filterMap.mp hparsed
  obtain ⟨hname, hdesc, hinstr⟩ := parsed_of_written h hw hdisk hentry hone
  have hfile : ∀ f ∈ s.files, (∀ c ∈ segments f.path.toList, c ≠ "." ∧ c ≠ "..") ∧ '\r' ∉ f.content.toList := by
    intro f hf
    obtain ⟨path, hpath, hread⟩ := mem_files hone (hsp.files.mem_iff.mp hf)
    obtain ⟨content, hcontent, rfl⟩ := Option.map_eq_some_iff.mp hread
    have hthere : disk.get? (["skills", entry] ++ path) ≠ none := by
      obtain ⟨bytes, hbytes⟩ := FileTree.isFile_iff.mp (mem_auxiliary hpath).1
      rw [hbytes]
      exact nofun
    have hproper := extracted_segments hdisk hthere
    refine ⟨?_, readFile_no_return hcontent⟩
    rw [segments_pathText hproper hpath]
    intro c hc
    have hseg := hproper c (List.mem_append_right _ hc)
    exact ⟨hseg.ne_dot, hseg.ne_dots⟩
  refine ⟨hsegment, ?_, ?_, ?_, fun f hf => (hfile f hf).1, fun f hf => (hfile f hf).2⟩
  · rw [hsp.name]
    exact hname
  · rw [hsp.description]
    exact hdesc
  · rw [hsp.instructions]
    exact fun hmem => hinstr (strip_subset _ hmem)

end Arrived

theorem nodup_auxiliary (t : Disk) (dir : Path) : (auxiliary t dir).Nodup := by
  refine List.Nodup.filter _ ?_
  rw [List.nodup_append]
  refine ⟨by decide, ?_, ?_⟩
  · rw [List.nodup_flatMap]
    refine ⟨fun sub _ => (FileTree.nodup_listdir t _).map fun a b hab => by simpa using hab, ?_⟩
    have hsubs : subdirs.Nodup := by decide
    refine hsubs.imp fun {sub sub'} hne => ?_
    intro p hp hp'
    obtain ⟨a, -, rfl⟩ := List.mem_map.mp hp
    obtain ⟨b, -, hb⟩ := List.mem_map.mp hp'
    exact hne (List.cons.inj hb).1.symm
  · intro p hp q hq heq
    obtain ⟨sub, -, hmem⟩ := List.mem_flatMap.mp hq
    obtain ⟨a, -, rfl⟩ := List.mem_map.mp hmem
    rw [heq] at hp
    simp [depFiles] at hp

/-- What is parsed of a directory with proper names is of the two shapes. -/
theorem parsed_written {t : Disk} (hproper : ∀ p, t.get? p ≠ none → ∀ c ∈ p, Segment c) {base : Path} {entry : String}
    {s : ParsedSkill} (h : parseSkill t base entry = some s) : Written s := by
  obtain ⟨content, -, hmap⟩ := Option.bind_eq_some_iff.mp h
  obtain ⟨files, hfiles, rfl⟩ := Option.map_eq_some_iff.mp hmap
  have hthere : ∀ p ∈ auxiliary t (base ++ [entry]), ∀ c ∈ base ++ [entry] ++ p, Segment c := by
    intro p hp
    obtain ⟨bytes, hbytes⟩ := FileTree.isFile_iff.mp (mem_auxiliary hp).1
    refine hproper _ ?_
    rw [hbytes]
    exact nofun
  have hpaths : files.map (·.path) = (auxiliary t (base ++ [entry])).map fun p => pathText p := by
    rcases mapM_cases (skillFile t (base ++ [entry])) (auxiliary t (base ++ [entry])) with ⟨-, hnone⟩ | ⟨hall, hsome⟩
    · rw [hnone] at hfiles
      cases hfiles
    · rw [hsome] at hfiles
      cases hfiles
      clear hthere h hmap hsome
      revert hall
      generalize auxiliary t (base ++ [entry]) = paths
      intro hall
      induction paths with
      | nil => rfl
      | cons p ps ih =>
        obtain ⟨hp, hrest⟩ := List.forall_mem_cons.mp hall
        obtain ⟨f, hf⟩ := Option.isSome_iff_exists.mp hp
        rw [List.filterMap_cons_some hf, List.map_cons, List.map_cons, ih hrest]
        obtain ⟨text, -, rfl⟩ := Option.map_eq_some_iff.mp hf
        rfl
  refine ⟨fun f hf => ?_, ?_⟩
  · have hmem : f.path ∈ (auxiliary t (base ++ [entry])).map fun p => pathText p := by
      rw [← hpaths]
      exact List.mem_map_of_mem hf
    obtain ⟨p, hp, hpath⟩ := List.mem_map.mp hmem
    rw [← hpath]
    rcases (mem_auxiliary hp).2 with hdep | ⟨sub, hsub, fname, -, rfl⟩
    · simp only [depFiles, List.mem_cons, List.not_mem_nil, or_false] at hdep
      rcases hdep with rfl | rfl
      · exact .inl (by decide)
      · exact .inr (.inl (by decide))
    · have hf : Segment fname := hthere _ hp fname (by simp)
      refine .inr (.inr ⟨sub, hsub, fname.toList, ?_, hf.no_slash, hf.no_nul, ?_⟩)
      · exact fun hnil => hf.ne (String.toList_inj.mp hnil)
      · rw [pathText, String.intercalate_cons_cons, String.intercalate_singleton]
        simp
  · show (files.map (·.path)).Nodup
    rw [hpaths]
    refine (nodup_auxiliary t _).map_on fun p hp q hq heq => ?_
    rw [← segments_pathText (hthere p hp) hp, ← segments_pathText (hthere q hq) hq, heq]

/-! ### What is intact arrives -/

theorem segment_of_path {s : ParsedSkill} (hw : Written s) (hi : Intact s) {f : SkillFile} (hf : f ∈ s.files) :
    ∀ c ∈ segments f.path.toList, c ≠ "" ∧ c ≠ "." ∧ c ≠ ".." := by
  intro c hc
  refine ⟨?_, hi.paths f hf c hc⟩
  rcases filePath_cases (hw.paths f hf) with (hseg | hseg) | ⟨sub, hsub, fname, hne, hseg⟩
  · rw [hseg, List.mem_singleton] at hc
    rw [hc]
    decide
  · rw [hseg, List.mem_singleton] at hc
    rw [hc]
    decide
  · rw [hseg] at hc
    simp only [List.mem_cons, List.not_mem_nil, or_false] at hc
    rcases hc with rfl | rfl
    · exact (subdirs_segment c hsub).1.ne
    · exact hne

/-- What stands under a skill's directory: its `SKILL.md` and its files. -/
def tails (s : ParsedSkill) : List (Path × List UInt8) :=
  (["SKILL.md"], Utf8.encode (skillMd s)) ::
    s.files.map fun f => (segments f.path.toList, Utf8.encode f.content.toList)

def placed (s : ParsedSkill) : List (Path × List UInt8) := (tails s).map fun m => (["skills", s.name] ++ m.1, m.2)

theorem tails_cases {s : ParsedSkill} (hw : Written s) {m : Path × List UInt8} (h : m ∈ tails s) :
    (m.1 = ["SKILL.md"] ∨ m.1 ∈ depFiles) ∨ ∃ sub ∈ subdirs, ∃ fname, m.1 = [sub, fname] := by
  rcases List.mem_cons.mp h with rfl | h
  · exact .inl (.inl rfl)
  · obtain ⟨f, hf, rfl⟩ := List.mem_map.mp h
    rcases filePath_cases (hw.paths f hf) with (hseg | hseg) | ⟨sub, hsub, fname, -, hseg⟩
    · exact .inl (.inr (by rw [hseg]; simp [depFiles]))
    · exact .inl (.inr (by rw [hseg]; simp [depFiles]))
    · exact .inr ⟨sub, hsub, fname, hseg⟩

/-- None of them is above another. -/
theorem tails_eq_of_below {s : ParsedSkill} (hw : Written s) {m m' : Path × List UInt8} (h : m ∈ tails s) (h' : m' ∈ tails s)
    (hpre : m.1 <+: m'.1) : m.1 = m'.1 := by
  have hsingle : ∀ {p : Path}, p = ["SKILL.md"] ∨ p ∈ depFiles → p.length = 1 ∧ ∀ sub ∈ subdirs, p.head? ≠ some sub := by
    intro p hp
    have hcases : p = ["SKILL.md"] ∨ p = ["requirements.txt"] ∨ p = ["package.json"] := by simpa [depFiles] using hp
    rcases hcases with rfl | rfl | rfl
    · exact ⟨rfl, fun sub hsub heq => (subdirs_segment sub hsub).2.1 (Option.some.inj heq).symm⟩
    · exact ⟨rfl, fun sub hsub heq => (subdirs_segment sub hsub).2.2.1 (Option.some.inj heq).symm⟩
    · exact ⟨rfl, fun sub hsub heq => (subdirs_segment sub hsub).2.2.2 (Option.some.inj heq).symm⟩
  rcases tails_cases hw h with hm | ⟨sub, hsub, fname, hm⟩
  · rcases tails_cases hw h' with hm' | ⟨sub', hsub', fname', hm'⟩
    · exact hpre.eq_of_length ((hsingle hm).1.trans (hsingle hm').1.symm)
    · obtain ⟨hlen, hhead⟩ := hsingle hm
      obtain ⟨c, hc⟩ := List.length_eq_one_iff.mp hlen
      rw [hc, hm', List.cons_prefix_cons] at hpre
      rw [hc, hpre.1] at hhead
      exact absurd rfl (hhead sub' hsub')
  · rcases tails_cases hw h' with hm' | ⟨sub', hsub', fname', hm'⟩
    · have hlen := hpre.length_le
      rw [hm, (hsingle hm').1] at hlen
      simp at hlen
    · exact hpre.eq_of_length (by rw [hm, hm']; rfl)

section Intact

variable {skills : List ParsedSkill}

theorem resolve_members {s : ParsedSkill} (hw : Written s) (hi : Intact s) :
    (members s).map (fun m => (resolve m.name, m.content)) = (placed s).map fun f => (some f.1, f.2) := by
  have hone : ∀ path : List Char, (∀ c ∈ segments path, c ≠ "" ∧ c ≠ "." ∧ c ≠ "..") →
      resolve (memberName s.name.toList path) = some (["skills", s.name] ++ segments path) := by
    intro path hpath
    rw [resolve_member hi.segment, resolveFrom_all _ hpath]
  have hmd : segments "SKILL.md".toList = ["SKILL.md"] := by decide
  have hfirst := hone "SKILL.md".toList (by rw [hmd]; decide)
  rw [hmd] at hfirst
  rw [members, placed, tails, List.map_cons, List.map_cons, List.map_cons, hfirst, List.map_map, List.map_map, List.map_map]
  congr 1
  refine List.map_congr_left fun f hf => ?_
  dsimp only [Function.comp]
  rw [hone _ (segment_of_path hw hi hf)]

theorem mapM_of_map {α β : Type} {f : α → Option β} {l : List α} {k : List β} (h : l.map f = k.map some) :
    l.mapM f = some k := by
  induction l generalizing k with
  | nil =>
    rw [List.map_nil, eq_comm, List.map_eq_nil_iff] at h
    rw [h]
    rfl
  | cons a l ih =>
    cases k with
    | nil => cases h
    | cons b k =>
      rw [List.map_cons, List.map_cons] at h
      rw [List.mapM_cons, (List.cons.inj h).1, ih (List.cons.inj h).2]
      rfl

/-- Where the members are extracted to. -/
theorem mapM_resolve (hw : ∀ s ∈ skills, Written s) (hi : ∀ s ∈ skills, Intact s) :
    ((buildSkillsArchive skills).mapM fun m => (resolve m.name).map fun path => (path, m.content)) =
      some (skills.flatMap placed) := by
  refine mapM_of_map ?_
  rw [buildSkillsArchive, List.map_flatMap, List.map_flatMap]
  refine List.flatMap_congr fun s hs => ?_
  have hmap := congrArg (List.map fun r : Option Path × List UInt8 => r.1.map fun path => (path, r.2))
    (resolve_members (hw s hs) (hi s hs))
  rw [List.map_map, List.map_map] at hmap
  exact hmap

theorem map_resolve (hw : ∀ s ∈ skills, Written s) (hi : ∀ s ∈ skills, Intact s) :
    ((buildSkillsArchive skills).map fun m => resolve m.name) = (skills.flatMap placed).map fun f => some f.1 := by
  rw [buildSkillsArchive, List.map_flatMap, List.map_flatMap]
  refine List.flatMap_congr fun s hs => ?_
  have hmap := congrArg (List.map Prod.fst) (resolve_members (hw s hs) (hi s hs))
  rw [List.map_map, List.map_map] at hmap
  exact hmap

theorem nodup_tails {s : ParsedSkill} (hw : Written s) : ((tails s).map Prod.fst).Nodup := by
  rw [tails, List.map_cons, List.map_map, List.nodup_cons]
  constructor
  · intro hmem
    obtain ⟨f, hf, heq⟩ := List.mem_map.mp hmem
    rcases filePath_cases (hw.paths f hf) with (hseg | hseg) | ⟨sub, hsub, fname, -, hseg⟩
    · rw [Function.comp_apply, hseg] at heq
      simp at heq
    · rw [Function.comp_apply, hseg] at heq
      simp at heq
    · rw [Function.comp_apply, hseg] at heq
      simp at heq
  · refine List.Nodup.of_map (fun p => pathText p) ?_
    rw [List.map_map]
    have hpaths : s.files.map ((fun p => pathText p) ∘ Prod.fst ∘ fun f : SkillFile =>
        (segments f.path.toList, Utf8.encode f.content.toList)) = s.files.map (·.path) :=
      List.map_congr_left fun f hf => String.toList_inj.mp (pathText_segments (hw.paths f hf))
    rw [hpaths]
    exact hw.distinct

/-- No member is above another. -/
theorem placed_apart (hd : (skills.map (·.name)).Nodup) (hw : ∀ s ∈ skills, Written s) :
    (skills.flatMap placed).Pairwise fun m m' => FileTree.Apart m.1 m'.1 := by
  rw [List.pairwise_flatMap]
  constructor
  · intro s hs
    rw [placed, List.pairwise_map]
    have hne : (tails s).Pairwise fun m m' => m.1 ≠ m'.1 := List.pairwise_map.mp (nodup_tails (hw s hs))
    refine hne.imp_of_mem fun {m m'} hm hm' hmm => ?_
    refine ⟨fun hpre => hmm ?_, fun hpre => hmm ?_⟩
    · exact tails_eq_of_below (hw s hs) hm hm' ((List.prefix_append_right_inj _).mp hpre)
    · exact (tails_eq_of_below (hw s hs) hm' hm ((List.prefix_append_right_inj _).mp hpre)).symm
  · have hne : skills.Pairwise fun s s' => s.name ≠ s'.name := List.pairwise_map.mp hd
    refine hne.imp fun {s s'} hss m hm m' hm' => ?_
    obtain ⟨t, -, rfl⟩ := List.mem_map.mp hm
    obtain ⟨t', -, rfl⟩ := List.mem_map.mp hm'
    constructor
    · intro hpre
      simp only [List.cons_append, List.nil_append, List.cons_prefix_cons] at hpre
      exact hss hpre.2.1
    · intro hpre
      simp only [List.cons_append, List.nil_append, List.cons_prefix_cons] at hpre
      exact hss hpre.2.1.symm

/-- The disk the members are extracted to: each file is where it was placed, and no other. -/
theorem extracted_disk (hd : (skills.map (·.name)).Nodup) (hw : ∀ s ∈ skills, Written s) (hi : ∀ s ∈ skills, Intact s) :
    ∃ disk, extract (buildSkillsArchive skills) = some disk ∧
      (∀ m ∈ skills.flatMap placed, disk.get? m.1 = some (.file m.2)) ∧
        ∀ p content, disk.get? p = some (.file content) → (p, content) ∈ skills.flatMap placed := by
  have hfits : ∀ m ∈ skills.flatMap placed, FileTree.Fits emptyDisk m := by
    intro m hm
    obtain ⟨s, -, hms⟩ := List.mem_flatMap.mp hm
    obtain ⟨t, -, rfl⟩ := List.mem_map.mp hms
    refine ⟨by simp, by rw [emptyDisk_get?]; exact nofun, fun b _ _ a => by rw [emptyDisk_get?]; exact nofun⟩
  obtain ⟨disk, hdisk, hall⟩ := FileTree.unpack_members hfits (placed_apart hd hw)
  refine ⟨disk, ?_, hall, fun p content hp => ?_⟩
  · rw [extract, mapM_resolve hw hi]
    exact hdisk
  · rcases FileTree.unpack_file hdisk hp with hnone | hmem
    · rw [emptyDisk_get?] at hnone
      cases hnone
    · exact hmem

/-- What is on the disk under a skill's directory is the skill's. -/
theorem placed_under (hd : (skills.map (·.name)).Nodup) {s : ParsedSkill} (hs : s ∈ skills) {tail : Path}
    {content : List UInt8} (h : (["skills", s.name] ++ tail, content) ∈ skills.flatMap placed) : (tail, content) ∈ tails s := by
  obtain ⟨u, hu, hmem⟩ := List.mem_flatMap.mp h
  obtain ⟨t, ht, heq⟩ := List.mem_map.mp hmem
  simp only [List.cons_append, List.nil_append, Prod.mk.injEq, List.cons.injEq, true_and] at heq
  obtain ⟨⟨hname, htail⟩, hcontent⟩ := heq
  obtain rfl : u = s := List.inj_on_of_nodup_map hd hu hs hname
  rw [← htail, ← hcontent]
  exact ht

section Parsed

variable {disk : Disk} (hfiles : ∀ m ∈ skills.flatMap placed, disk.get? m.1 = some (.file m.2))
  (honly : ∀ p content, disk.get? p = some (.file content) → (p, content) ∈ skills.flatMap placed)
  (hd : (skills.map (·.name)).Nodup)

include hfiles in
theorem file_there {s : ParsedSkill} (hs : s ∈ skills) {tail : Path} {content : List UInt8} (h : (tail, content) ∈ tails s) :
    disk.get? (["skills", s.name] ++ tail) = some (.file content) :=
  hfiles (["skills", s.name] ++ tail, content) (List.mem_flatMap.mpr ⟨s, hs, List.mem_map.mpr ⟨_, h, rfl⟩⟩)

include hfiles honly hd in
/-- The files that are found are those the skill has. -/
theorem auxiliary_perm {s : ParsedSkill} (hs : s ∈ skills) (hw : Written s) :
    (auxiliary disk ["skills", s.name]).Perm (s.files.map fun f => segments f.path.toList) := by
  have hnodup := nodup_auxiliary disk ["skills", s.name]
  have htails : (s.files.map fun f => segments f.path.toList).Nodup := by
    have hall := nodup_tails hw
    rw [tails, List.map_cons, List.map_map] at hall
    exact (List.nodup_cons.mp hall).2
  refine (List.perm_ext_iff_of_nodup hnodup htails).mpr fun p => ?_
  constructor
  · intro hp
    obtain ⟨hfile, hshape⟩ := mem_auxiliary hp
    obtain ⟨content, hcontent⟩ := FileTree.isFile_iff.mp hfile
    rcases List.mem_cons.mp (placed_under hd hs (honly _ _ hcontent)) with heq | hmem
    · exfalso
      have hp' : p = ["SKILL.md"] := congrArg Prod.fst heq
      rw [hp'] at hshape
      rcases hshape with hdep | ⟨_, _, _, _, hpair⟩
      · revert hdep
        decide
      · simp at hpair
    · obtain ⟨f, hf, heq⟩ := List.mem_map.mp hmem
      exact List.mem_map.mpr ⟨f, hf, congrArg Prod.fst heq⟩
  · intro hp
    obtain ⟨f, hf, rfl⟩ := List.mem_map.mp hp
    have hthere := file_there hfiles hs (List.mem_cons_of_mem _ (List.mem_map.mpr ⟨f, hf, rfl⟩))
    refine List.mem_filter.mpr ⟨?_, FileTree.isFile_iff.mpr ⟨_, hthere⟩⟩
    rcases filePath_cases (hw.paths f hf) with (hseg | hseg) | ⟨sub, hsub, fname, -, hseg⟩
    · rw [hseg]
      simp [depFiles]
    · rw [hseg]
      simp [depFiles]
    · rw [hseg] at hthere ⊢
      refine List.mem_append_right _ (List.mem_flatMap.mpr ⟨sub, hsub, List.mem_map.mpr ⟨fname, ?_, rfl⟩⟩)
      rw [FileTree.mem_listdir]
      have happ : ["skills", s.name] ++ [sub] ++ [fname] = ["skills", s.name] ++ [sub, fname] := by simp
      rw [happ, hthere]
      exact nofun

include hfiles honly hd in
theorem parse_intact {s : ParsedSkill} (hs : s ∈ skills) (hw : Written s) (hi : Intact s) :
    ∃ p, parseSkill disk ["skills"] s.name = some p ∧ Same s p := by
  have hread := readFile_of (file_there hfiles hs (List.mem_cons_self ..))
  have hmd : translate (skillMd s) = rule ++ (frontText s.name.toList s.description.toList ++
      '\n' :: (rule ++ '\n' :: '\n' :: translate s.instructions.toList)) := by
    have hfront : '\r' ∉ rule ++ (frontText s.name.toList s.description.toList ++ '\n' :: (rule ++ ['\n', '\n'])) := by
      have hname := hi.name.no_return
      have hdesc := hi.description.no_return
      have hrule : '\r' ∉ rule := by decide
      have hkeys : '\r' ∉ nameKey ∧ '\r' ∉ descriptionKey := by decide
      simp [frontText, keyLine, hname, hdesc, hrule, hkeys]
    have htranslate := translate_front hfront s.instructions.toList
    simpa [skillMd] using htranslate
  have hparse := parse_plain hi.name hi.description s.name ('\n' :: '\n' :: translate s.instructions.toList)
  rw [← hmd, String.ofList_toList, String.ofList_toList] at hparse
  have hrest : strip ('\n' :: '\n' :: translate s.instructions.toList) = strip s.instructions.toList := by
    rw [strip_cons rfl, strip_cons rfl, strip_translate hi.instructions]
  have hskillFile : ∀ f ∈ s.files, skillFile disk ["skills", s.name] (segments f.path.toList) = some f := by
    intro f hf
    have hcontent := readFile_of (file_there hfiles hs (List.mem_cons_of_mem _ (List.mem_map.mpr ⟨f, hf, rfl⟩)))
    rw [translate_id (hi.contents f hf), String.ofList_toList] at hcontent
    rw [skillFile, hcontent, Option.map_some, String.toList_inj.mp (pathText_segments (hw.paths f hf))]
  have hperm := auxiliary_perm hfiles honly hd hs hw
  obtain ⟨files, hmap, hfilesPerm⟩ : ∃ files, (auxiliary disk ["skills", s.name]).mapM (skillFile disk ["skills", s.name]) =
      some files ∧ s.files.Perm files := by
    rcases mapM_cases (skillFile disk ["skills", s.name]) (auxiliary disk ["skills", s.name]) with
      ⟨⟨p, hp, hnone⟩, -⟩ | ⟨-, hsome⟩
    · obtain ⟨f, hf, rfl⟩ := List.mem_map.mp (hperm.mem_iff.mp hp)
      rw [hskillFile f hf] at hnone
      cases hnone
    · refine ⟨_, hsome, ?_⟩
      have hfilter := hperm.filterMap (skillFile disk ["skills", s.name])
      have hself : (s.files.map fun f => segments f.path.toList).filterMap (skillFile disk ["skills", s.name]) = s.files := by
        rw [List.filterMap_map]
        exact (List.filterMap_congr fun f hf => hskillFile f hf).trans List.filterMap_some
      rw [hself] at hfilter
      exact hfilter.symm
  refine ⟨⟨s.name, s.description, String.ofList (strip s.instructions.toList), files⟩, ?_, ?_⟩
  · have hpath : ["skills"] ++ [s.name, "SKILL.md"] = ["skills", s.name] ++ ["SKILL.md"] := rfl
    have hdir : ["skills"] ++ [s.name] = ["skills", s.name] := rfl
    rw [parseSkill, hpath, hread, Option.bind_some, hdir, hmap, Option.map_some, hparse, hrest]
  · refine ⟨rfl, rfl, ?_, hfilesPerm⟩
    rw [String.toList_ofList, strip_strip]

include hfiles honly hd in
theorem skillDirs_perm : (skillDirs disk ["skills"]).Perm (skills.map (·.name)) := by
  refine (List.perm_ext_iff_of_nodup ((FileTree.nodup_listdir disk _).filter _) hd).mpr fun entry => ?_
  constructor
  · intro hentry
    obtain ⟨content, hcontent⟩ := FileTree.isFile_iff.mp (List.mem_filter.mp hentry).2
    obtain ⟨u, hu, hmem⟩ := List.mem_flatMap.mp (honly _ _ hcontent)
    obtain ⟨t, -, heq⟩ := List.mem_map.mp hmem
    simp only [List.cons_append, List.nil_append, Prod.mk.injEq, List.cons.injEq, true_and] at heq
    exact List.mem_map.mpr ⟨u, hu, heq.1.1⟩
  · intro hentry
    obtain ⟨s, hs, rfl⟩ := List.mem_map.mp hentry
    have hthere := file_there hfiles hs (List.mem_cons_self ..)
    refine List.mem_filter.mpr ⟨?_, FileTree.isFile_iff.mpr ⟨_, hthere⟩⟩
    rw [FileTree.mem_listdir]
    have hdir := disk.closed ["skills", s.name] ["SKILL.md"] (by simp) (by simp) (by
      show disk.get? _ ≠ none
      rw [hthere]
      exact nofun)
    show Dict.get? disk.nodes ["skills", s.name] ≠ none
    rw [hdir]
    exact nofun

end Parsed

theorem arrives_of_intact (hd : (skills.map (·.name)).Nodup) (hw : ∀ s ∈ skills, Written s)
    (hi : ∀ s ∈ skills, Intact s) : Arrives skills := by
  refine ⟨fun s hs m hm => ?_, ?_, ?_⟩
  · have hmap := congrArg (List.map Prod.fst) (resolve_members (hw s hs) (hi s hs))
    rw [List.map_map, List.map_map] at hmap
    have hmem : resolve m.name ∈ (placed s).map (Prod.fst ∘ fun f => (some f.1, f.2)) := by
      rw [← hmap]
      exact List.mem_map.mpr ⟨m, hm, rfl⟩
    obtain ⟨f, hf, hresolve⟩ := List.mem_map.mp hmem
    obtain ⟨t, ht, rfl⟩ := List.mem_map.mp hf
    refine ⟨t.1, ?_, hresolve.symm⟩
    intro hnil
    rcases tails_cases (hw s hs) ht with (h | h) | ⟨sub, -, fname, h⟩
    · rw [hnil] at h
      cases h
    · rw [hnil] at h
      simp [depFiles] at h
    · rw [hnil] at h
      cases h
  · rw [map_resolve hw hi]
    refine List.pairwise_map.mpr ((placed_apart hd hw).imp fun {m m'} hapart heq => ?_)
    exact hapart.ne (Option.some.inj heq)
  · obtain ⟨disk, hdisk, hfiles, honly⟩ := extracted_disk hd hw hi
    have hone : ∀ s ∈ skills, ∃ p, parseSkill disk ["skills"] s.name = some p ∧ Same s p :=
      fun s hs => parse_intact hfiles honly hd hs (hw s hs) (hi s hs)
    have hperm := skillDirs_perm hfiles honly hd
    refine ⟨disk, (skillDirs disk ["skills"]).filterMap (parseSkill disk ["skills"]),
      (skills.map (·.name)).filterMap (parseSkill disk ["skills"]), hdisk, ?_, (hperm.filterMap _).symm, ?_⟩
    · rcases parseSkillsFromDirectory_cases disk ["skills"] with ⟨⟨entry, hentry, hnone⟩, -⟩ | ⟨-, hsome⟩
      · obtain ⟨s, hs, rfl⟩ := List.mem_map.mp (hperm.mem_iff.mp hentry)
        obtain ⟨p, hp, -⟩ := hone s hs
        rw [hnone] at hp
        cases hp
      · exact hsome
    · clear hfiles honly hperm hdisk hd hw hi
      induction skills with
      | nil => exact .nil
      | cons s skills ih =>
        obtain ⟨⟨p, hp, hsame⟩, hrest⟩ := List.forall_mem_cons.mp hone
        rw [List.map_cons, List.filterMap_cons_some hp]
        exact .cons hsame (ih hrest)

/-- Skills arrive as they were written exactly if each is intact. -/
theorem arrives_iff (hd : (skills.map (·.name)).Nodup) (hw : ∀ s ∈ skills, Written s) :
    Arrives skills ↔ ∀ s ∈ skills, Intact s :=
  ⟨fun h => intact_of_arrives h hw, arrives_of_intact hd hw⟩

end Intact

/-- A skill of one line each, with a file. -/
def postSkill : ParsedSkill := ⟨"post", "Posts a message.", "# Post", [⟨"scripts/post.py", "print()"⟩]⟩

theorem postSkill_accepted : apiAccepts postSkill = true := by decide

theorem postSkill_arrives : Arrives [postSkill] := by
  have hnames : ([postSkill].map (·.name)).Nodup := List.nodup_singleton _
  refine (arrives_iff hnames ?_).mpr ?_
  · rw [List.forall_mem_singleton]
    exact accepted_written (.inl postSkill_accepted)
  · rw [List.forall_mem_singleton]
    refine ⟨⟨?_, ?_, ?_, ?_, ?_⟩, ⟨?_, ?_, ?_, ?_⟩, ⟨?_, ?_, ?_, ?_⟩, ?_, ?_, ?_⟩
    all_goals decide

def twoLines : ParsedSkill := ⟨"post", "Posts a message.\nTo a channel.", "# Post", []⟩

/-- A description of two lines is accepted, and does not arrive. -/
theorem a_description_of_two_lines : apiAccepts twoLines = true ∧ ¬ Arrives [twoLines] := by
  have haccepted : apiAccepts twoLines = true := by decide
  refine ⟨haccepted, fun h => ?_⟩
  have hwritten : ∀ s ∈ [twoLines], Written s := by
    rw [List.forall_mem_singleton]
    exact accepted_written (.inl haccepted)
  refine (intact_of_arrives h hwritten twoLines (List.mem_singleton_self _)).description.one_line ?_
  decide

end Errand.Server.SkillArchives

import Errand.Runner.FilterErrors
import Errand.Runner.HeldSummary

/-
  Errand.Runner.FileLists — which of the files a chain of summaries has seen are listed at
  the end of the one that is held (`_format_file_lists`, the end of `_compact_context`).

  The lists are read back with a search for the first opening tag and the next closing tag,
  from a text the summariser wrote in front of them. What it writes there can hold a block
  of its own, and a path can hold what a line does not keep: white space at its ends, a
  line break, the closing tag.

  Proved:
  - `listed_clean`: what is read back is never such a path.
  - `kept_iff`: a completed turn keeps every file found along the chain exactly if every
    new path is a clean one, and a block in front of a list holds all of them itself
    (`Lossless`).
  - `files_are_kept`: in a run whose turns are all lossless every file stays listed.
  - `a_blank_in_a_path_is_lost`, `an_echoed_tag_hides_the_list`: a turn can be otherwise.
-/

namespace Errand.Runner.FileOperations

open Errand.Lib
open Errand.Lib.PyStr

/-! ## Lines and entries -/

/-- A path that a line of a list keeps. -/
structure Clean (tag : Tag) (p : List Char) : Prop where
  nonempty : p ≠ []
  stripped : strip p = p
  oneLine : ∀ c ∈ p, isLineBreak c = false
  noClosing : ¬ tag.closing <:+: p

theorem lines_ne_nil (s : List Char) : lines s ≠ [] := by
  cases s with
  | nil => simp [lines]
  | cons c s =>
    unfold lines
    split
    · simp
    · split <;> simp

theorem lines_append (a : List Char) {c : Char} (hc : isLineBreak c = true) (b : List Char) :
    lines (a ++ c :: b) = lines a ++ lines b := by
  induction a with
  | nil => simp [lines, hc]
  | cons d a ih =>
    rw [List.cons_append, lines, lines, ih]
    split
    · rfl
    · cases h : lines a with
      | nil => exact absurd h (lines_ne_nil a)
      | cons line rest => rfl

theorem lines_oneLine {p : List Char} (h : ∀ c ∈ p, isLineBreak c = false) : lines p = [p] := by
  induction p with
  | nil => rfl
  | cons c p ih =>
    obtain ⟨hc, hp⟩ := List.forall_mem_cons.mp h
    rw [lines, hc, ih hp]
    rfl

theorem mem_lines {s line : List Char} (h : line ∈ lines s) :
    line <:+: s ∧ ∀ c ∈ line, isLineBreak c = false := by
  induction s generalizing line with
  | nil =>
    rw [lines, List.mem_singleton] at h
    subst h
    exact ⟨List.infix_rfl, by intro c hc; cases hc⟩
  | cons c s ih =>
    have hprefix : ∀ first rest, lines s = first :: rest → first <+: s := by
      clear ih h
      induction s with
      | nil =>
        intro first rest hl
        cases hl
        exact List.prefix_rfl
      | cons d s ih =>
        intro first rest hl
        unfold lines at hl
        split at hl
        · cases hl
          exact List.nil_prefix
        · split at hl
          · rename_i line rest' hs
            cases hl
            exact List.cons_prefix_cons.mpr ⟨rfl, ih _ _ hs⟩
          · rename_i hs
            exact absurd hs (lines_ne_nil s)
    unfold lines at h
    split at h
    · rcases List.mem_cons.mp h with rfl | h
      · exact ⟨List.nil_infix, by intro c hc; cases hc⟩
      · obtain ⟨hi, hl⟩ := ih h
        exact ⟨hi.trans (List.suffix_cons c s).isInfix, hl⟩
    · rename_i hc
      split at h
      · rename_i first rest hs
        rcases List.mem_cons.mp h with rfl | h
        · obtain ⟨-, hl⟩ := ih (hs ▸ List.mem_cons_self ..)
          refine ⟨(List.cons_prefix_cons.mpr ⟨rfl, hprefix first rest hs⟩).isInfix, ?_⟩
          intro d hd
          rcases List.mem_cons.mp hd with rfl | hd
          · simpa using hc
          · exact hl d hd
        · obtain ⟨hi, hl⟩ := ih (hs ▸ List.mem_cons_of_mem _ h)
          exact ⟨hi.trans (List.suffix_cons c s).isInfix, hl⟩
      · rename_i hs
        exact absurd hs (lines_ne_nil s)

theorem entries_append (a : List Char) {c : Char} (hc : isLineBreak c = true) (b : List Char) :
    entries (a ++ c :: b) = entries a ++ entries b := by
  simp only [entries, lines_append a hc b, List.map_append, List.filter_append]

theorem entries_clean {tag : Tag} {p : List Char} (h : Clean tag p) : entries p = [p] := by
  rw [entries, lines_oneLine h.oneLine, List.map_singleton, h.stripped]
  simp [h.nonempty]

/-- The entries of a join of clean paths are the paths. -/
theorem entries_join {tag : Tag} {paths : List (List Char)} (h : ∀ p ∈ paths, Clean tag p) :
    entries (['\n'].intercalate paths) = paths := by
  induction paths with
  | nil => rfl
  | cons p paths ih =>
    obtain ⟨hp, hrest⟩ := List.forall_mem_cons.mp h
    cases paths with
    | nil => rw [List.intercalate_singleton, entries_clean hp]
    | cons next paths =>
      rw [List.intercalate_cons_cons, List.append_assoc, List.singleton_append, entries_append _ (by decide),
        entries_clean hp, ih hrest]
      rfl

theorem mem_entries {s p : List Char} (h : p ∈ entries s) :
    p ≠ [] ∧ strip p = p ∧ (∀ c ∈ p, isLineBreak c = false) ∧ p <:+: s := by
  unfold entries at h
  rw [List.mem_filter, List.mem_map] at h
  obtain ⟨⟨line, hline, rfl⟩, hne⟩ := h
  obtain ⟨hwithin, hbreak⟩ := mem_lines hline
  exact ⟨by simpa using hne, strip_strip line, fun c hc => hbreak c (strip_subset line hc), (strip_within line).trans hwithin⟩

/-! ## What is read back -/

/-- What the search for a list relies on. -/
structure Tag.Proper (tag : Tag) : Prop where
  opening : tag.opening ≠ []
  closing : tag.closing ≠ []
  openingLine : '\n' ∉ tag.opening
  closingLine : '\n' ∉ tag.closing
  apart : ¬ tag.closing <:+: tag.opening

theorem readFiles_proper : readFiles.Proper := ⟨by decide, by decide, by decide, by decide, by decide⟩

theorem modifiedFiles_proper : modifiedFiles.Proper := ⟨by decide, by decide, by decide, by decide, by decide⟩

/-- What is read back of a summary are clean paths. -/
theorem listed_clean {tag : Tag} (h : tag.Proper) {summary p : List Char} (hp : p ∈ listed tag summary) : Clean tag p := by
  unfold listed at hp
  cases hb : Search.between tag.opening tag.closing summary with
  | none => rw [hb] at hp; cases hp
  | some body =>
    rw [hb] at hp
    obtain ⟨hne, hstrip, hline, hwithin⟩ := mem_entries hp
    refine ⟨hne, hstrip, hline, ?_⟩
    intro hc
    obtain ⟨r, hr, hb⟩ := Option.bind_eq_some_iff.mp hb
    obtain ⟨⟨a, b⟩, hab, rfl⟩ := Option.map_eq_some_iff.mp hb
    exact Search.not_infix_before h.closing hab (hc.trans hwithin)

/-- A block in the text in front hides the one behind it. -/
theorem listed_front {tag : Tag} (h : tag.Proper) {a body : List Char}
    (hbody : Search.between tag.opening tag.closing a = some body) (b : List Char) :
    listed tag (a ++ '\n' :: b) = entries body := by
  rw [listed, Search.between_front h.opening h.closing h.openingLine h.closingLine hbody]

/-- Without one in front the block is read back, and what else stands between the tags. -/
theorem listed_block {tag : Tag} (h : tag.Proper) {a : List Char} (ha : Search.between tag.opening tag.closing a = none)
    {paths : List (List Char)} (hpaths : ∀ p ∈ paths, Clean tag p) (rest : List Char) :
    paths ⊆ listed tag (a ++ '\n' :: (block tag paths ++ rest)) := by
  have hbody : ¬ tag.closing <:+: ['\n'].intercalate paths :=
    Search.not_infix_join h.closing h.closingLine fun p hp => (hpaths p hp).noClosing
  obtain ⟨front, hfront⟩ := Search.between_block h.opening h.closing h.openingLine h.closingLine h.apart ha hbody rest
  have hblock : block tag paths ++ rest =
      tag.opening ++ '\n' :: (['\n'].intercalate paths ++ '\n' :: (tag.closing ++ rest)) := by
    simp [block]
  intro p hp
  rw [listed, hblock, hfront]
  show p ∈ entries (front ++ '\n' :: (['\n'].intercalate paths ++ ['\n']))
  rw [entries_append _ (by decide), entries_append _ (by decide), entries_join hpaths]
  simp [hp]

/-! ## The lists of one operation -/

/-- The two lists. -/
inductive Side where
  | read
  | modified
  deriving DecidableEq

def Side.tag : Side → Tag
  | .read => readFiles
  | .modified => modifiedFiles

def Side.paths : Side → Operations → List Json.Key
  | .read, ops => ops.read
  | .modified, ops => ops.modified

theorem Side.proper : ∀ side : Side, side.tag.Proper
  | .read => readFiles_proper
  | .modified => modifiedFiles_proper

/-- The paths that are texts. -/
def texts (paths : List Json.Key) : List (List Char) := (texts? paths).getD []

/-- What a list of the new summary holds. -/
def merged (side : Side) (ops : Operations) (existing : List Char) : List (List Char) :=
  sorted (listed side.tag existing ++ texts (side.paths ops))

/-- What stands in front of a list, up to its line. -/
def ahead (side : Side) (ops : Operations) (existing s : List Char) : List Char :=
  match side with
  | .read => rstrip s ++ ['\n']
  | .modified => rstrip s ++ ['\n'] ++ (blocks readFiles (merged .read ops existing)).flatMap ('\n' :: ·)

theorem mem_merged {side : Side} {ops : Operations} {existing p : List Char} :
    p ∈ merged side ops existing ↔ p ∈ listed side.tag existing ∨ p ∈ texts (side.paths ops) := by
  rw [merged, sorted, List.mem_insertionSort, List.mem_dedup, List.mem_append]

theorem mem_texts {paths : List Json.Key} {l : List (List Char)} (h : texts? paths = some l) (path : Json.Key) :
    path ∈ paths ↔ ∃ p, path = .str p ∧ p.toList ∈ l := by
  induction paths generalizing l with
  | nil =>
    cases h
    simp
  | cons first paths ih =>
    cases first with
    | str s =>
      obtain ⟨rest, hrest, rfl⟩ := Option.map_eq_some_iff.mp h
      rw [List.mem_cons, ih hrest]
      constructor
      · intro hmem
        rcases hmem with rfl | ⟨p, rfl, hp⟩
        · exact ⟨s, rfl, List.mem_cons_self ..⟩
        · exact ⟨p, rfl, List.mem_cons_of_mem _ hp⟩
      · intro hmem
        rcases hmem with ⟨p, rfl, hp⟩
        rcases List.mem_cons.mp hp with hp | hp
        · exact .inl (by rw [String.toList_inj.mp hp])
        · exact .inr ⟨p, rfl, hp⟩
    | _ => cases h

theorem formatFileLists_ok {ops : Operations} {existing lists : List Char} (h : formatFileLists ops existing = .ok lists) :
    (∀ (side : Side) (path : Json.Key), path ∈ side.paths ops ↔ ∃ p, path = Json.Key.str p ∧ p.toList ∈ texts (side.paths ops)) ∧
      lists = ['\n'].intercalate (blocks readFiles (merged .read ops existing) ++
        blocks modifiedFiles (merged .modified ops existing)) := by
  unfold formatFileLists at h
  split at h
  · rename_i read modified hread hmodified
    cases h
    have htexts : texts (Side.paths .read ops) = read ∧ texts (Side.paths .modified ops) = modified := by
      simp [texts, Side.paths, hread, hmodified]
    refine ⟨?_, ?_⟩
    · intro side path
      cases side with
      | read => rw [htexts.1]; exact mem_texts hread path
      | modified => rw [htexts.2]; exact mem_texts hmodified path
    · simp only [merged, htexts, Side.tag]
  · cases h

end Errand.Runner.FileOperations

namespace Errand.Runner.Compaction

open Errand.Lib
open Errand.Runner.Messages
open Errand.Runner.FileOperations

/-! ## What the extraction found -/

def Found (py : Python) (side : Side) (messages : List Json) (path : Json.Key) : Prop :=
  ∃ m ∈ messages, ∃ ops, messageOperations py m = .ok ops ∧ path ∈ side.paths ops

theorem paths_append (side : Side) (a b : Operations) : side.paths (a ++ b) = side.paths a ++ side.paths b := by
  cases side <;> rfl

theorem extract_found {py : Python} {messages : List Json} {ops : Operations}
    (h : extractFileOperations py messages = .ok ops) (side : Side) (path : Json.Key) :
    path ∈ side.paths ops ↔ Found py side messages path := by
  induction messages generalizing ops with
  | nil =>
    cases h
    refine iff_of_false (by cases side <;> exact List.not_mem_nil) ?_
    intro hmem
    rcases hmem with ⟨m, hm, -⟩
    cases hm
  | cons m messages ih =>
    unfold extractFileOperations at h
    split at h
    · cases h
    · rename_i first hfirst
      split at h
      · cases h
      · rename_i rest hrest
        cases h
        rw [paths_append, List.mem_append, ih hrest]
        constructor
        · intro hmem
          rcases hmem with hp | ⟨m', hm', hops⟩
          · exact ⟨m, List.mem_cons_self .., first, hfirst, hp⟩
          · exact ⟨m', List.mem_cons_of_mem _ hm', hops⟩
        · intro hmem
          rcases hmem with ⟨m', hm', ops, hops, hp⟩
          rcases List.mem_cons.mp hm' with rfl | hm'
          · rw [hfirst] at hops
            cases hops
            exact .inl hp
          · exact .inr ⟨m', hm', ops, hops, hp⟩

theorem found_append {py : Python} {side : Side} {a b : List Json} {path : Json.Key} :
    Found py side (a ++ b) path ↔ Found py side a path ∨ Found py side b path := by
  simp only [Found, List.mem_append, or_and_right, exists_or]

/-! ## A turn that loses none -/

/-- Every file found along the chain is read back from the held summary. -/
def Kept (R : Setup) (r : Recorded) : Prop :=
  ∀ side path, Found R.py side r.account.chain.flatten path →
    ∃ p, path = Json.Key.str p ∧ p.toList ∈ listed side.tag r.state.summary.toList

/-- What an answer and a request must be for a list to lose none: the new paths are clean,
    and a block in front of the list has all of them. -/
structure Lossless (R : Setup) (r : Recorded) (q : Setup.Request) (s : String) (side : Side) : Prop where
  clean : ∀ path, Found R.py side q.new path → ∃ p, path = Json.Key.str p ∧ Clean side.tag p.toList
  echo : ∀ body, Search.between side.tag.opening side.tag.closing
      (ahead side q.files q.existing.toList s.toList) = some body →
    ∀ path, Found R.py side (r.account.record q).chain.flatten path →
      ∃ p, path = Json.Key.str p ∧ p.toList ∈ entries body

variable {R : Setup}

theorem record_chain (a : Account) (q : Setup.Request) :
    (a.record q).chain.flatten = (if q.held then a.chain.flatten else []) ++ q.new := by
  unfold Account.record
  cases q.held <;> simp

/-- All that was found goes into the lists. -/
theorem found_merged {r : Recorded} (hr : Kept R r) {first middle last : List Json} {q : Setup.Request}
    (hq : R.Asks { r.state with turn := r.state.turn + 1 } first middle last q) {lists : List Char}
    (hl : formatFileLists q.files q.existing.toList = .ok lists) {side : Side} {path : Json.Key}
    (h : Found R.py side (r.account.record q).chain.flatten path) :
    ∃ p, path = Json.Key.str p ∧ p.toList ∈ merged side q.files q.existing.toList := by
  rw [record_chain, found_append] at h
  rcases h with h | h
  · cases hheld : q.held with
    | false =>
      rw [hheld, if_neg (by decide)] at h
      obtain ⟨m, hm, -⟩ := h
      cases hm
    | true =>
      rw [hheld, if_pos rfl] at h
      obtain ⟨p, rfl, hp⟩ := hr side path h
      have hexisting : q.existing = r.state.summary := by
        cases hq.begins with
        | held _ hm _ => exact (Setup.matchHeldSummary_some hm).2.1
        | marked hno _ _ => rw [hno] at hheld; cases hheld
      exact ⟨p, rfl, mem_merged.mpr (.inl (hexisting ▸ hp))⟩
  · rw [← extract_found hq.files, (formatFileLists_ok hl).1] at h
    obtain ⟨p, rfl, hp⟩ := h
    exact ⟨p, rfl, mem_merged.mpr (.inr hp)⟩

/-- Where a list stands in a summary that has it. -/
theorem summary_block {s : String} {ops : Operations} {existing lists : List Char}
    (hl : formatFileLists ops existing = .ok lists) {side : Side} (h : merged side ops existing ≠ []) :
    ∃ rest, (Setup.withLists s lists).toList =
      ahead side ops existing s.toList ++ '\n' :: (block side.tag (merged side ops existing) ++ rest) := by
  have hlists := (formatFileLists_ok hl).2
  have hblocks : ∀ {tag : Tag} {paths : List (List Char)}, paths ≠ [] → blocks tag paths = [block tag paths] := by
    intro tag paths hne
    rw [blocks, if_neg (by simpa using hne)]
  have hblock : ∀ (tag : Tag) (paths : List (List Char)), tag.Proper → block tag paths ≠ [] := by
    intro tag paths hp hnil
    exact hp.opening (List.append_eq_nil_iff.mp (List.append_eq_nil_iff.mp hnil).1).1
  have htext : lists ≠ [] →
      (Setup.withLists s lists).toList = PyStr.rstrip s.toList ++ ['\n'] ++ '\n' :: lists := by
    intro hne
    rw [Setup.withLists, if_neg (by simpa using hne), String.toList_ofList]
    simp
  cases side with
  | read =>
    rw [hblocks h] at hlists
    cases hm : blocks modifiedFiles (merged .modified ops existing) with
    | nil =>
      rw [hm, List.append_nil, List.intercalate_singleton] at hlists
      refine ⟨[], ?_⟩
      rw [htext (hlists ▸ hblock _ _ readFiles_proper), hlists, List.append_nil]
      rfl
    | cons next rest =>
      rw [hm, List.singleton_append, List.intercalate_cons_cons, List.append_assoc] at hlists
      refine ⟨['\n'] ++ ['\n'].intercalate (next :: rest), ?_⟩
      rw [htext (hlists ▸ List.append_ne_nil_of_left_ne_nil (hblock _ _ readFiles_proper) _), hlists]
      rfl
  | modified =>
    rw [hblocks h] at hlists
    refine ⟨[], ?_⟩
    rw [List.append_nil]
    cases hm : blocks readFiles (merged .read ops existing) with
    | nil =>
      rw [hm, List.nil_append, List.intercalate_singleton] at hlists
      rw [htext (hlists ▸ hblock _ _ modifiedFiles_proper), hlists]
      simp [ahead, hm, Side.tag]
    | cons first rest =>
      have hrest : rest = [] := by
        unfold blocks at hm
        split at hm
        · cases hm
        · cases hm
          rfl
      subst hrest
      rw [hm, List.singleton_append, List.intercalate_cons_cons, List.intercalate_singleton] at hlists
      rw [htext (hlists ▸ List.append_ne_nil_of_right_ne_nil _ (hblock _ _ modifiedFiles_proper)), hlists]
      simp [ahead, hm, Side.tag]

/-- A completed turn after which nothing is lost is one in which nothing gets lost. -/
theorem kept_iff {r : Recorded} (hr : Kept R r) {s : String} {messages : List Json} {q : Setup.Request} {summary : String}
    (h : R.completed r.state (.text s) messages = some (q, summary)) :
    Kept R ⟨(R.compactContext r.state (.text s) messages).2, r.account.record q⟩ ↔ ∀ side, Lossless R r q s side := by
  obtain ⟨hq, hsummary, hst⟩ := Setup.compactContext_completed h
  obtain ⟨s', lists, hs, -, hl, rfl⟩ := Setup.newSummary_some hsummary
  cases hs
  rw [hst]
  have hmerged : ∀ {side : Side} {path : Json.Key}, Found R.py side (r.account.record q).chain.flatten path →
      ∃ p, path = Json.Key.str p ∧ p.toList ∈ merged side q.files q.existing.toList := found_merged hr hq hl
  show (∀ side path, Found R.py side (r.account.record q).chain.flatten path →
    ∃ p, path = Json.Key.str p ∧ p.toList ∈ listed side.tag (Setup.withLists s lists).toList) ↔ _
  constructor
  · intro hkept side
    refine ⟨?_, ?_⟩
    · intro path hfound
      obtain ⟨p, rfl, hp⟩ := hkept side path (by rw [record_chain, found_append]; exact .inr hfound)
      exact ⟨p, rfl, listed_clean side.proper hp⟩
    · intro body hbody path hfound
      obtain ⟨p, rfl, hp⟩ := hkept side path hfound
      obtain ⟨p', hp', hmem⟩ := hmerged hfound
      obtain ⟨rest, htext⟩ := summary_block (s := s) hl (List.ne_nil_of_mem hmem)
      rw [htext, listed_front side.proper hbody] at hp
      exact ⟨p, rfl, hp⟩
  · intro hloss side path hfound
    obtain ⟨p, rfl, hp⟩ := hmerged hfound
    refine ⟨p, rfl, ?_⟩
    obtain ⟨rest, htext⟩ := summary_block (s := s) hl (List.ne_nil_of_mem hp)
    rw [htext]
    cases hb : Search.between side.tag.opening side.tag.closing (ahead side q.files q.existing.toList s.toList) with
    | some body =>
      obtain ⟨p', hp', hmem⟩ := (hloss side).echo body hb _ hfound
      cases hp'
      rw [listed_front side.proper hb]
      exact hmem
    | none =>
      refine listed_block side.proper hb ?_ rest hp
      intro p' hp'
      rcases mem_merged.mp hp' with hold | hnew
      · exact listed_clean side.proper hold
      · have hpath : Json.Key.str (String.ofList p') ∈ side.paths q.files := by
          rw [(formatFileLists_ok hl).1]
          exact ⟨_, rfl, by rwa [String.toList_ofList]⟩
        obtain ⟨p'', hp'', hclean⟩ := (hloss side).clean _ ((extract_found hq.files side _).mp hpath)
        cases hp''
        rwa [String.toList_ofList] at hclean

/-! ## Runs -/

/-- If a turn completes, both its lists are lossless. -/
def LosslessTurn (R : Setup) (r : Recorded) (e : Event) : Prop :=
  ∀ s messages q summary, e = .turn (.text s) messages → R.completed r.state (.text s) messages = some (q, summary) →
    ∀ side, Lossless R r q s side

theorem step_kept {r r' : Recorded} {e : Event} (hr : Kept R r) (hc : LosslessTurn R r e)
    (h : (machine R).step r e = some r') : Kept R r' := by
  cases e with
  | turn reply messages =>
    cases hd : R.completed r.state reply messages with
    | none =>
      obtain ⟨hs, -, -⟩ := Setup.compactContext_kept hd
      simp only [machine, hd, Option.some.injEq] at h
      subst h
      intro side path hfound
      obtain ⟨p, rfl, hp⟩ := hr side path hfound
      exact ⟨p, rfl, hs ▸ hp⟩
    | some p =>
      obtain ⟨q, summary⟩ := p
      obtain ⟨-, hsummary, -⟩ := Setup.compactContext_completed hd
      obtain ⟨s, lists, rfl, -, -, -⟩ := Setup.newSummary_some hsummary
      rw [step_completed hd] at h
      cases h
      exact (kept_iff hr hd).mpr (hc s messages q summary rfl hd)
  | resetBackoff =>
    cases h
    exact hr
  | resetSummary =>
    cases h
    intro side path hfound
    obtain ⟨m, hm, -⟩ := hfound
    cases hm

/-- In a run whose turns are lossless, every file found along the chain is listed in the
    held summary, in every state it reaches. -/
theorem files_are_kept (R : Setup) {r : Recorded} (h : (machine R).ReachIf (LosslessTurn R) r) : Kept R r := by
  refine Machine.ReachIf.inv ?_ ?_ h
  · intro r hr
    cases hr
    intro side path hfound
    obtain ⟨m, hm, -⟩ := hfound
    cases hm
  · intro r e r' hr hc hst
    exact step_kept hr hc hst

/-- A history with one file read, over the limit. -/
def readHistory (args : String) : List Json :=
  [userMessage "go", readFile "c" args, found "c", userMessage "on"]

set_option maxRecDepth 20000 in
theorem a_file_is_kept : ∃ r, Kept reading r ∧ Found reading.py .read r.account.chain.flatten (.str "a") := by
  have hq : reading.completed initial (.text "s") (readHistory "\x7b\"path\":\"a\"\x7d") = some
      (⟨[userMessage "go"], [readFile "c" "\x7b\"path\":\"a\"\x7d", found "c"], [userMessage "on"], false, "",
        [readFile "c" "\x7b\"path\":\"a\"\x7d", found "c"], ⟨[.str "a"], []⟩, _⟩, _) := rfl
  have hops : messageOperations reading.py (readFile "c" "\x7b\"path\":\"a\"\x7d") = .ok ⟨[.str "a"], []⟩ := rfl
  have hlossless : LosslessTurn reading ⟨initial, [], []⟩
      (.turn (.text "s") (readHistory "\x7b\"path\":\"a\"\x7d")) := by
    intro s messages q summary he hc side
    cases he
    rw [hq] at hc
    cases hc
    refine ⟨?_, ?_⟩
    · intro path hfound
      obtain ⟨m, hm, ops, hm', hp⟩ := hfound
      rcases List.mem_pair.mp hm with rfl | rfl
      · rw [hops] at hm'
        cases hm'
        cases side with
        | read =>
          cases List.mem_singleton.mp hp
          have hline : ∀ c ∈ "a".toList, isLineBreak c = false := List.forall_mem_singleton.mpr rfl
          exact ⟨"a", rfl, by decide, by decide, hline, by decide⟩
        | modified => cases hp
      · cases hm'
        cases side <;> cases hp
    · intro body hbody
      cases side <;> cases hbody
  refine ⟨_, files_are_kept reading (.step _ (.init rfl) hlossless (step_completed hq)), ?_⟩
  exact ⟨_, List.mem_cons_self .., _, hops, List.mem_cons_self ..⟩

/-- A call in the request reads the path. -/
def readsPath (R : Setup) (path : String) (q : Setup.Request) : Bool :=
  !q.held && q.new.any fun m =>
    match messageOperations R.py m with
    | .ok ops => ops.read.contains (.str path)
    | .error _ => false

/-- A first turn that reads a path the summary it makes does not list. -/
theorem path_is_lost (R : Setup) (reply : Reply) (messages : List Json) (path : String)
    (hc : ((R.completed initial reply messages).any fun p => readsPath R path p.1) = true)
    (hl : (listed readFiles (R.compactContext initial reply messages).2.summary.toList).contains path.toList = false) :
    ∃ r, (machine R).Reach r ∧ ¬ Kept R r := by
  obtain ⟨⟨q, summary⟩, hc, hq⟩ := (Option.any_eq_true _ _).mp hc
  simp only [readsPath, Bool.and_eq_true, Bool.not_eq_true', List.any_eq_true] at hq
  obtain ⟨hheld, m, hm, hreads⟩ := hq
  refine ⟨_, .step _ (Machine.Reach.init (M := machine R) rfl) (step_completed (r := ⟨initial, [], []⟩) hc), ?_⟩
  intro hkept
  have hfound : Found R.py .read (Account.record ⟨[], []⟩ q).chain.flatten (.str path) := by
    rw [record_chain, hheld, if_neg (by decide), List.nil_append]
    split at hreads
    · rename_i ops hops
      exact ⟨m, hm, ops, hops, List.contains_iff_mem.mp hreads⟩
    · cases hreads
  obtain ⟨p, hp, hmem⟩ := hkept .read _ hfound
  cases hp
  rw [← List.contains_iff_mem] at hmem
  exact Bool.false_ne_true (hl.symm.trans hmem)

/-- A path with a blank in front is read back without it. -/
theorem a_blank_in_a_path_is_lost : ¬ ∀ (R : Setup) (r : Recorded), (machine R).Reach r → Kept R r := by
  intro h
  obtain ⟨r, hreach, hno⟩ := path_is_lost reading (.text "s") (readHistory "\x7b\"path\":\" a\"\x7d") " a"
    (by decide +kernel) (by decide +kernel)
  exact hno (h reading r hreach)

/-- A summariser that writes the tags itself hides the list. -/
theorem an_echoed_tag_hides_the_list : ∃ r, (machine reading).Reach r ∧ ¬ Kept reading r :=
  path_is_lost reading (.text "<read-files></read-files>") (readHistory "\x7b\"path\":\"a\"\x7d") "a"
    (by decide +kernel) (by decide +kernel)

end Errand.Runner.Compaction

import Errand.Gateway.Reconcile

/-
  Errand.Gateway.QuarantineMoves — the two moves of `quarantine_entry`
  (workspace-gateway/cache_reconcile.py), call by call, for any content of files.

  A call the file system refuses is taken from `Calls`. The stats of `os.path.exists` and
  `os.path.isdir` may be refused, too, and then answer no; `shutil.move` renames, and where
  that fails copies the file and unlinks the source. How a directory is moved is a
  `TreeMove`: with nothing lost and nothing overwritten, as `os.rename` and `shutil.copytree`
  do. Directories made before `os.makedirs` is refused are left out.

  Proved:
  - `moveFile_spec`, `moveOne_moved`: what each move leaves, by the calls that are refused.
  - `entry_kept_iff`: an entry is kept exactly if no refused stat has a move write over another
    file, and a move of the metadata that goes through is not left alone by that of the data.
  - `the_data_is_left`: the data cannot be renamed nor copied, the metadata can.
-/

namespace Errand.Gateway.QuarantineMoves

open Errand.Lib

/-- The calls that stat a path of the quarantine. -/
inductive Stat where
  /-- `os.path.exists` of a name for the destination. -/
  | name
  /-- `os.path.isdir(dst)` in `shutil.move`. -/
  | destination
  /-- `os.path.exists(real_dst)`. -/
  | inside
  /-- `os.path.isdir(dst)` in `shutil.copy2`. -/
  | copying

/-- How the copy of a file ends, and the unlink after it. -/
inductive CopyEnd (α : Type) where
  | unopened
  | partly (written : α)
  | whole (unlinked : Bool)

/-- `shutil.move` of a directory, and whether it returned. It may fail with the directory
    copied, in part or whole, and some of it removed that was copied before. -/
structure TreeMove (α : Type) where
  run : FileTree α → Path → Path → FileTree α × Bool
  elsewhere : ∀ t src dst k, t.get? src = some .dir → ¬src <+: k → ¬dst <+: k → (run t src dst).1.get? k = t.get? k
  files : ∀ t src dst k x, t.get? src = some .dir → ¬src <+: k → t.get? k = some (.file x) →
    (run t src dst).1.get? k = some (.file x)
  gone : ∀ t src dst, t.get? src = some .dir → (run t src dst).2 = true →
    (run t src dst).1.get? src = none ∧ ∃ q, dst <+: q ∧ ∀ r, (run t src dst).1.get? (q ++ r) = t.get? (src ++ r)
  stays : ∀ t src dst, t.get? src = some .dir → (run t src dst).2 = false → (run t src dst).1.get? src = some .dir
  kept : ∀ t src dst r x, t.get? src = some .dir → t.get? (src ++ r) = some (.file x) →
    (run t src dst).1.get? (src ++ r) = some (.file x) ∨ ∃ q, dst <+: q ∧ (run t src dst).1.get? q = some (.file x)
  shrinks : ∀ t src dst r, t.get? src = some .dir →
    (run t src dst).1.get? (src ++ r) = t.get? (src ++ r) ∨ (run t src dst).1.get? (src ++ r) = none

/-- What the file system makes of the calls of one move. -/
structure Calls (α : Type) where
  makesDirs : Bool
  stats : Stat → Path → Bool
  renames : Bool
  copyEnd : CopyEnd α
  tree : TreeMove α

section Moves

variable {α : Type} (calls : Calls α) (t : FileTree α)

/-- `os.path.exists`. -/
def pathExists (s : Stat) (p : Path) : Bool := calls.stats s p && (t.get? p).isSome

/-- `os.path.isdir`. -/
def isDir (s : Stat) (p : Path) : Bool := calls.stats s p && decide (t.get? p = some .dir)

/-- The first of `dest`, `dest.1`, `dest.2` and so on that does not seem to exist. -/
def freeName (dest : Path) : Path :=
  numbered dest (((List.range (t.nodes.length + 1)).find? fun n => !pathExists calls t .name (numbered dest n)).getD 0)

/-- `real_dst`: into the destination, if that is a directory. -/
def realDst (src dst : Path) : Path := if isDir calls t .destination dst then dst ++ src.getLast?.toList else dst

/-- The destination has the name already. -/
def collides (src dst : Path) : Bool :=
  isDir calls t .destination dst && pathExists calls t .inside (realDst calls t src dst)

/-- The path `shutil.copy2` opens. -/
def copyDst (src dst : Path) : Path :=
  let real := realDst calls t src dst
  if isDir calls t .copying real then real ++ src.getLast?.toList else real

def copyFile (src p : Path) (content : α) : FileTree α × Bool :=
  match calls.copyEnd with
  | .unopened => (t, false)
  | .partly written => ((t.put p written).getD t, false)
  | .whole unlinked =>
    match t.put p content with
    | none => (t, false)
    | some t =>
      match if unlinked then t.remove src else none with
      | some t => (t, true)
      | none => (t, false)

/-- `shutil.move` of a file, and whether it returned. -/
def moveFile (src dst : Path) (content : α) : FileTree α × Bool :=
  if collides calls t src dst then (t, false)
  else
    match if calls.renames then (t.put (realDst calls t src dst) content).bind (·.remove src) else none with
    | some t => (t, true)
    | none => copyFile calls t src (copyDst calls t src dst) content

/-- `_quarantine_destination`. -/
def quarantineDestination (subdir : String) (rel : Path) : Option (FileTree α × Path) :=
  let dest := quarantinePath subdir rel
  if !calls.makesDirs then none
  else (t.makedirs dest.dropLast).map fun t => (t, freeName calls t dest)

/-- One of the moves, and whether the source went. -/
def moveOne (subdir : String) (rel : Path) : FileTree α × Bool :=
  match quarantineDestination calls t subdir rel with
  | none => (t, false)
  | some (t, dest) =>
    match t.get? (subdir :: rel) with
    | none => (t, false)
    | some (.file content) => moveFile calls t (subdir :: rel) dest content
    | some .dir => calls.tree.run t (subdir :: rel) dest

/-- `quarantine_entry`: data first. -/
def quarantineEntry («data» «meta» : Calls α) (rel : Path) : FileTree α :=
  (moveOne «meta» (moveOne «data» t "vfs" rel).1 "vfsMeta" rel).1

/-! ## What a move does, by the calls -/

/-- The rename goes through, over a file, too. -/
def Renames (src dst : Path) : Prop := calls.renames = true ∧ t.get? (realDst calls t src dst) ≠ some .dir

/-- The copy that a refused rename falls back on opens its destination. -/
def Opens (src dst : Path) : Prop :=
  ¬Renames calls t src dst ∧ t.get? (copyDst calls t src dst) ≠ some .dir

/-- The move of a file writes the content at the path. -/
def Writes (src dst : Path) (content : α) (p : Path) (written : α) : Prop :=
  collides calls t src dst = false ∧
    (Renames calls t src dst ∧ p = realDst calls t src dst ∧ written = content ∨
      Opens calls t src dst ∧ p = copyDst calls t src dst ∧
        (calls.copyEnd = .partly written ∨ ∃ unlinked, calls.copyEnd = .whole unlinked ∧ written = content))

/-- The move takes the file away from the source. -/
def Takes (src dst : Path) : Prop :=
  collides calls t src dst = false ∧
    (Renames calls t src dst ∨ Opens calls t src dst ∧ calls.copyEnd = .whole true)

end Moves

/-- What the move of a file comes to. -/
inductive FileMoved {α : Type} (calls : Calls α) (t : FileTree α) (src dst : Path) (content : α) :
    FileTree α × Bool → Prop
  | nothing (hwrites : ∀ p y, ¬Writes calls t src dst content p y) (htakes : ¬Takes calls t src dst) :
      FileMoved calls t src dst content (t, false)
  | left (p : Path) (y : α) (t' : FileTree α) (hp : dst <+: p) (hput : t.put p y = some t')
      (hwrites : ∀ q z, Writes calls t src dst content q z ↔ q = p ∧ z = y) (htakes : ¬Takes calls t src dst) :
      FileMoved calls t src dst content (t', false)
  | went (p : Path) (t₁ t' : FileTree α) (hp : dst <+: p) (hput : t.put p content = some t₁)
      (hremove : t₁.remove src = some t')
      (hwrites : ∀ q z, Writes calls t src dst content q z ↔ q = p ∧ z = content) (htakes : Takes calls t src dst) :
      FileMoved calls t src dst content (t', true)

section Lemmas

variable {α : Type} {calls : Calls α} {t : FileTree α} {src dst : Path} {content : α}

theorem FileMoved.returned {result : FileTree α × Bool} (h : FileMoved calls t src dst content result) :
    result.2 = true ↔ Takes calls t src dst := by
  cases h with
  | nothing hwrites htakes => exact iff_of_false Bool.false_ne_true htakes
  | left p y t' hp hput hwrites htakes => exact iff_of_false Bool.false_ne_true htakes
  | went p t₁ t' hp hput hremove hwrites htakes => exact iff_of_true rfl htakes

theorem realDst_below (calls : Calls α) (t : FileTree α) (src dst : Path) : dst <+: realDst calls t src dst := by
  unfold realDst
  split
  · exact List.prefix_append ..
  · exact List.prefix_refl _

theorem copyDst_below (calls : Calls α) (t : FileTree α) (src dst : Path) : dst <+: copyDst calls t src dst := by
  unfold copyDst
  dsimp only
  split
  · exact (realDst_below calls t src dst).trans (List.prefix_append ..)
  · exact realDst_below ..

theorem isDir_get? {s : Stat} {p : Path} (h : isDir calls t s p = true) : t.get? p = some .dir := by
  unfold isDir at h
  rw [Bool.and_eq_true, decide_eq_true_eq] at h
  exact h.2

/-- Below a directory that stands the names stand. -/
theorem stands_concat {p : Path} (hp : t.Stands p) (hdir : t.get? p = some .dir) (x : String) :
    t.Stands (p ++ [x]) := by
  refine ⟨by simp, ?_⟩
  intro a ha
  obtain ⟨hne, hprefix⟩ := FileTree.mem_above_concat.mp ha
  obtain ⟨b, rfl⟩ := hprefix
  by_cases hb : b = []
  · rw [hb, List.append_nil] at hdir
    exact hdir
  · exact hp.2 a (FileTree.mem_above.mpr ⟨hne, b, hb, rfl⟩)

theorem stands_inside {p : Path} (hp : t.Stands p) (hdir : t.get? p = some .dir) :
    t.Stands (p ++ src.getLast?.toList) := by
  cases src.getLast? with
  | none =>
    rw [Option.toList_none, List.append_nil]
    exact hp
  | some x => exact stands_concat hp hdir x

theorem realDst_stands (hdst : t.Stands dst) : t.Stands (realDst calls t src dst) := by
  unfold realDst
  split
  · rename_i h
    exact stands_inside hdst (isDir_get? h)
  · exact hdst

theorem copyDst_stands (hdst : t.Stands dst) : t.Stands (copyDst calls t src dst) := by
  unfold copyDst
  dsimp only
  split
  · rename_i h
    exact stands_inside (realDst_stands hdst) (isDir_get? h)
  · exact realDst_stands hdst

theorem put_isSome {p : Path} {y : α} (hp : t.Stands p) (hdir : t.get? p ≠ some .dir) : ∃ t', t.put p y = some t' := by
  unfold FileTree.put
  rw [dif_pos ⟨hp, hdir⟩]
  exact ⟨_, rfl⟩

theorem put_eq_none {p : Path} {y : α} (hdir : t.get? p = some .dir) : t.put p y = none := by
  unfold FileTree.put
  rw [dif_neg fun h => h.2 hdir]

/-- A file written elsewhere does not keep the source from being removed. -/
theorem remove_isSome {t₁ : FileTree α} {p : Path} {y : α} (hput : t.put p y = some t₁) (hne : p ≠ src)
    (hsrc : t.get? src = some (.file content)) : ∃ t', t₁.remove src = some t' := by
  have hget : t₁.get? src = some (.file content) := by
    rw [FileTree.get?_put hput, if_neg hne, hsrc]
  unfold FileTree.remove
  split
  · exact ⟨_, rfl⟩
  · rename_i hno
    exact absurd hget (hno content)

/-- The copy, where the move comes to it. -/
theorem copyFile_spec (hcollides : collides calls t src dst = false) (hrenames : ¬Renames calls t src dst)
    (hsrc : t.get? src = some (.file content)) (hdst : t.Stands dst) (hapart : ¬dst <+: src) :
    FileMoved calls t src dst content (copyFile calls t src (copyDst calls t src dst) content) := by
  have hbelow : dst <+: copyDst calls t src dst := copyDst_below ..
  have hne : copyDst calls t src dst ≠ src := fun h => hapart (h ▸ hbelow)
  by_cases hdir : t.get? (copyDst calls t src dst) = some .dir
  · -- a directory is not opened
    have hopens : ¬Opens calls t src dst := fun h => h.2 hdir
    have hwrites : ∀ p y, ¬Writes calls t src dst content p y := by
      rintro p y ⟨-, ⟨h, -⟩ | ⟨h, -⟩⟩
      · exact hrenames h
      · exact hopens h
    have htakes : ¬Takes calls t src dst := by
      rintro ⟨-, h | ⟨h, -⟩⟩
      · exact hrenames h
      · exact hopens h
    have hsame : copyFile calls t src (copyDst calls t src dst) content = (t, false) := by
      unfold copyFile
      cases calls.copyEnd with
      | unopened => rfl
      | partly written =>
        dsimp only
        rw [put_eq_none hdir]
        rfl
      | whole unlinked =>
        dsimp only
        rw [put_eq_none hdir]
    rw [hsame]
    exact .nothing hwrites htakes
  · have hopens : Opens calls t src dst := ⟨hrenames, hdir⟩
    cases hend : calls.copyEnd with
    | unopened =>
      have hsame : copyFile calls t src (copyDst calls t src dst) content = (t, false) := by
        unfold copyFile
        rw [hend]
      rw [hsame]
      refine .nothing ?_ ?_
      · rintro p y ⟨-, ⟨h, -⟩ | ⟨-, -, h | ⟨u, h, -⟩⟩⟩
        · exact hrenames h
        · rw [hend] at h
          cases h
        · rw [hend] at h
          cases h
      · rintro ⟨-, h | ⟨-, h⟩⟩
        · exact hrenames h
        · rw [hend] at h
          cases h
    | partly written =>
      obtain ⟨t', hput⟩ := put_isSome (y := written) (copyDst_stands hdst) hdir
      have hsame : copyFile calls t src (copyDst calls t src dst) content = (t', false) := by
        unfold copyFile
        rw [hend]
        dsimp only
        rw [hput]
        rfl
      rw [hsame]
      refine .left _ written t' hbelow hput (fun q z => ?_) ?_
      · constructor
        · rintro ⟨-, ⟨h, -⟩ | ⟨-, hq, h | ⟨u, h, -⟩⟩⟩
          · exact absurd h hrenames
          · rw [hend] at h
            exact ⟨hq, (CopyEnd.partly.inj h).symm⟩
          · rw [hend] at h
            cases h
        · rintro ⟨rfl, rfl⟩
          exact ⟨hcollides, .inr ⟨hopens, rfl, .inl hend⟩⟩
      · rintro ⟨-, h | ⟨-, h⟩⟩
        · exact hrenames h
        · rw [hend] at h
          cases h
    | whole unlinked =>
      obtain ⟨t₁, hput⟩ := put_isSome (y := content) (copyDst_stands hdst) hdir
      obtain ⟨t', hremove⟩ := remove_isSome hput hne hsrc
      have hwrites : ∀ q z, Writes calls t src dst content q z ↔ q = copyDst calls t src dst ∧ z = content := by
        intro q z
        constructor
        · rintro ⟨-, ⟨h, -⟩ | ⟨-, hq, h | ⟨u, -, hz⟩⟩⟩
          · exact absurd h hrenames
          · rw [hend] at h
            cases h
          · exact ⟨hq, hz⟩
        · rintro ⟨rfl, rfl⟩
          exact ⟨hcollides, .inr ⟨hopens, rfl, .inr ⟨unlinked, hend, rfl⟩⟩⟩
      have hcopied : copyFile calls t src (copyDst calls t src dst) content =
          match if unlinked then t₁.remove src else none with
          | some t => (t, true)
          | none => (t₁, false) := by
        unfold copyFile
        rw [hend]
        dsimp only
        rw [hput]
      rw [hcopied]
      cases unlinked with
      | false =>
        refine .left _ content t₁ hbelow hput hwrites ?_
        rintro ⟨-, h | ⟨-, h⟩⟩
        · exact hrenames h
        · rw [hend] at h
          cases h
      | true =>
        rw [if_pos rfl, hremove]
        exact .went _ t₁ t' hbelow hput hremove hwrites ⟨hcollides, .inr ⟨hopens, hend⟩⟩

theorem moveFile_spec (hsrc : t.get? src = some (.file content)) (hdst : t.Stands dst) (hapart : ¬dst <+: src) :
    FileMoved calls t src dst content (moveFile calls t src dst content) := by
  unfold moveFile
  by_cases hcollides : collides calls t src dst = true
  · rw [if_pos hcollides]
    refine .nothing ?_ ?_
    · rintro p y ⟨h, -⟩
      rw [hcollides] at h
      cases h
    · rintro ⟨h, -⟩
      rw [hcollides] at h
      cases h
  · have hnot : collides calls t src dst = false := by simpa using hcollides
    rw [if_neg hcollides]
    by_cases hrenames : Renames calls t src dst
    · have hbelow : dst <+: realDst calls t src dst := realDst_below ..
      have hne : realDst calls t src dst ≠ src := fun h => hapart (h ▸ hbelow)
      obtain ⟨t₁, hput⟩ := put_isSome (y := content) (realDst_stands hdst) hrenames.2
      obtain ⟨t', hremove⟩ := remove_isSome hput hne hsrc
      rw [if_pos hrenames.1, hput, Option.bind_some, hremove]
      refine .went _ t₁ t' hbelow hput hremove (fun q z => ?_) ⟨hnot, .inl hrenames⟩
      constructor
      · rintro ⟨-, ⟨-, hq, hz⟩ | ⟨h, -⟩⟩
        · exact ⟨hq, hz⟩
        · exact absurd hrenames h.1
      · rintro ⟨rfl, rfl⟩
        exact ⟨hnot, .inl ⟨hrenames, rfl, rfl⟩⟩
    · have hnone : (if calls.renames then (t.put (realDst calls t src dst) content).bind (·.remove src) else none) =
          none := by
        by_cases hr : calls.renames = true
        · have hdir : t.get? (realDst calls t src dst) = some .dir := by
            by_contra hno
            exact hrenames ⟨hr, hno⟩
          rw [if_pos hr, put_eq_none hdir]
          rfl
        · rw [if_neg hr]
      rw [hnone]
      exact copyFile_spec hnot hrenames hsrc hdst hapart

end Lemmas

/-! ## The names of the quarantine -/

section Names

variable {α : Type} {calls : Calls α} {t u : FileTree α} {base src : Path} {x : String}

/-- The number of the name: the first that does not seem to exist. -/
def IsFirst (calls : Calls α) (t : FileTree α) (dest : Path) (n : Nat) : Prop :=
  pathExists calls t .name (numbered dest n) = false ∧ ∀ m < n, pathExists calls t .name (numbered dest m) = true

theorem IsFirst.unique {dest : Path} {m n : Nat} (hm : IsFirst calls t dest m) (hn : IsFirst calls t dest n) :
    m = n := by
  rcases Nat.lt_trichotomy m n with h | h | h
  · have htaken := hn.2 m h
    rw [hm.1] at htaken
    cases htaken
  · exact h
  · have htaken := hm.2 n h
    rw [hn.1] at htaken
    cases htaken

theorem freeName_spec (calls : Calls α) (t : FileTree α) (base : Path) (x : String) :
    ∃ n, freeName calls t (base ++ [x]) = numbered (base ++ [x]) n ∧ IsFirst calls t (base ++ [x]) n := by
  obtain ⟨k, hk, hfree⟩ := FileTree.exists_free t (numbered_injective base x)
  cases hfind : (List.range (t.nodes.length + 1)).find? fun n =>
      !pathExists calls t .name (numbered (base ++ [x]) n) with
  | none =>
    have hall := List.find?_eq_none.mp hfind k (List.mem_range.mpr hk)
    simp [pathExists, hfree] at hall
  | some n =>
    refine ⟨n, ?_, ?_⟩
    · unfold freeName
      rw [hfind, Option.getD_some]
    · rw [List.find?_range_eq_some] at hfind
      obtain ⟨hnot, -, hbefore⟩ := hfind
      exact ⟨by simpa using hnot, fun m hm => by simpa using hbefore m hm⟩

/-- The trees have the same below the directory. -/
def Agree (base : Path) (t u : FileTree α) : Prop := ∀ k, base <+: k → k ≠ base → u.get? k = t.get? k

variable (h : Agree base t u)
include h

theorem Agree.pathExists (s : Stat) {p : Path} (hp : base <+: p) (hne : p ≠ base) :
    pathExists calls u s p = pathExists calls t s p := by
  unfold QuarantineMoves.pathExists
  rw [h p hp hne]

theorem Agree.isDir (s : Stat) {p : Path} (hp : base <+: p) (hne : p ≠ base) :
    isDir calls u s p = isDir calls t s p := by
  unfold QuarantineMoves.isDir
  rw [h p hp hne]

theorem Agree.freeName : freeName calls u (base ++ [x]) = freeName calls t (base ++ [x]) := by
  obtain ⟨m, hm, hmfirst⟩ := freeName_spec calls u base x
  obtain ⟨n, hn, hnfirst⟩ := freeName_spec calls t base x
  have hsame : ∀ i, QuarantineMoves.pathExists calls u .name (numbered (base ++ [x]) i) =
      QuarantineMoves.pathExists calls t .name (numbered (base ++ [x]) i) := by
    intro i
    obtain ⟨y, hy⟩ := numbered_concat base x i
    rw [hy]
    exact h.pathExists .name (List.prefix_append ..) (by simp)
  have hfirst : IsFirst calls t (base ++ [x]) m := by
    unfold IsFirst at hmfirst ⊢
    simp only [hsame] at hmfirst
    exact hmfirst
  rw [hm, hn, hfirst.unique hnfirst]

variable {dst : Path} (hdst : base <+: dst) (hne : dst ≠ base)
include hdst hne

theorem below_ne {p : Path} (hp : dst <+: p) : base <+: p ∧ p ≠ base := by
  refine ⟨hdst.trans hp, ?_⟩
  rintro rfl
  exact hne (hp.eq_of_length_le hdst.length_le)

theorem Agree.realDst : realDst calls u src dst = realDst calls t src dst := by
  unfold QuarantineMoves.realDst
  rw [h.isDir .destination hdst hne]

theorem Agree.collides : collides calls u src dst = collides calls t src dst := by
  obtain ⟨hb, hn⟩ := below_ne h hdst hne (realDst_below calls t src dst)
  unfold QuarantineMoves.collides
  rw [h.realDst hdst hne, h.isDir .destination hdst hne, h.pathExists .inside hb hn]

theorem Agree.copyDst : copyDst calls u src dst = copyDst calls t src dst := by
  obtain ⟨hb, hn⟩ := below_ne h hdst hne (realDst_below calls t src dst)
  unfold QuarantineMoves.copyDst
  dsimp only
  rw [h.realDst hdst hne, h.isDir .copying hb hn]

theorem Agree.renames : Renames calls u src dst ↔ Renames calls t src dst := by
  obtain ⟨hb, hn⟩ := below_ne h hdst hne (realDst_below calls t src dst)
  unfold Renames
  rw [h.realDst hdst hne, h _ hb hn]

theorem Agree.opens : Opens calls u src dst ↔ Opens calls t src dst := by
  obtain ⟨hb, hn⟩ := below_ne h hdst hne (copyDst_below calls t src dst)
  unfold Opens
  rw [h.renames hdst hne, h.copyDst hdst hne, h _ hb hn]

theorem Agree.writes (content : α) (p : Path) (y : α) :
    Writes calls u src dst content p y ↔ Writes calls t src dst content p y := by
  unfold Writes
  rw [h.collides hdst hne, h.renames hdst hne, h.opens hdst hne, h.realDst hdst hne, h.copyDst hdst hne]

theorem Agree.takes : Takes calls u src dst ↔ Takes calls t src dst := by
  unfold Takes
  rw [h.collides hdst hne, h.renames hdst hne, h.opens hdst hne]

end Names

/-! ## One move -/

/-- The directory a move goes to. -/
def asideDir (subdir : String) (rel : Path) : Path := "quarantine" :: subdir :: rel.dropLast

theorem quarantinePath_concat (subdir : String) (dir : Path) (x : String) :
    quarantinePath subdir (dir ++ [x]) = asideDir subdir (dir ++ [x]) ++ [x] := by
  simp [quarantinePath, asideDir]

section One

variable {α : Type}

/-- No file stands where the directory has to be, or on the way to it. -/
def Room (t : FileTree α) (subdir : String) (rel : Path) : Prop :=
  ∀ b, b ≠ [] → b <+: asideDir subdir rel → ∀ x, t.get? b ≠ some (.file x)

/-- The move gets as far as `shutil.move`. -/
def Starts (calls : Calls α) (t : FileTree α) (subdir : String) (rel : Path) : Prop :=
  calls.makesDirs = true ∧ Room t subdir rel

/-- The move takes away what is at the source. -/
def Leaves (calls : Calls α) (t : FileTree α) (subdir : String) (rel : Path) : Prop :=
  let dest := freeName calls t (quarantinePath subdir rel)
  Starts calls t subdir rel ∧
    ((∃ x, t.get? (subdir :: rel) = some (.file x)) ∧ Takes calls t (subdir :: rel) dest ∨
      t.get? (subdir :: rel) = some .dir ∧
        (calls.tree.run ((t.makedirs (asideDir subdir rel)).getD t) (subdir :: rel) dest).2 = true)

/-- The move writes something else over a file. -/
def Overwrites (calls : Calls α) (t : FileTree α) (subdir : String) (rel : Path) : Prop :=
  Starts calls t subdir rel ∧ ∃ x p y z, t.get? (subdir :: rel) = some (.file x) ∧
    Writes calls t (subdir :: rel) (freeName calls t (quarantinePath subdir rel)) x p y ∧
      t.get? p = some (.file z) ∧ z ≠ y

/-- What stood at the path stands somewhere below the quarantine. -/
def Aside (t u : FileTree α) (p : Path) : Prop :=
  ∃ q, q.head? = some "quarantine" ∧ ∀ r, u.get? (q ++ r) = t.get? (p ++ r)

/-- What a move leaves. -/
structure HalfMoved (t u : FileTree α) (subdir : String) (rel : Path) (leaves overwrites : Prop) : Prop where
  other : ∀ k, ¬["quarantine", subdir] <+: k → k ≠ ["quarantine"] → ¬subdir :: rel <+: k → u.get? k = t.get? k
  root : ∀ x, u.get? ["quarantine"] = some (.file x) ↔ t.get? ["quarantine"] = some (.file x)
  gone : leaves → u.get? (subdir :: rel) = none ∧
    ∃ q, ["quarantine", subdir] <+: q ∧ ∀ r, u.get? (q ++ r) = t.get? (subdir :: rel ++ r)
  stays : ¬leaves → u.get? (subdir :: rel) = t.get? (subdir :: rel)
  kept : ∀ r x, t.get? (subdir :: rel ++ r) = some (.file x) →
    u.get? (subdir :: rel ++ r) = some (.file x) ∨ ∃ q, ["quarantine", subdir] <+: q ∧ u.get? q = some (.file x)
  shrinks : ∀ r, u.get? (subdir :: rel ++ r) = t.get? (subdir :: rel ++ r) ∨ u.get? (subdir :: rel ++ r) = none
  files : ¬overwrites → ∀ k x, k.head? = some "quarantine" → t.get? k = some (.file x) → u.get? k = some (.file x)
  lost : overwrites → ∃ k x, ["quarantine", subdir] <+: k ∧ t.get? k = some (.file x) ∧ u.get? k ≠ some (.file x)

variable {calls : Calls α} {t u : FileTree α} {subdir : String} {rel : Path}

/-- A path of the quarantine is not one of the live cache. -/
theorem not_live {p k : Path} (rel : Path) (hsub : subdir ≠ "quarantine") (hp : p.head? = some "quarantine")
    (hk : p <+: k) :
    ¬subdir :: rel <+: k := by
  rintro ⟨b, rfl⟩
  cases p with
  | nil => cases hp
  | cons c p =>
    obtain ⟨hc, -⟩ := List.cons_prefix_cons.mp hk
    exact hsub (hc.symm.trans (Option.some.inj hp))

/-- The tree when the directory for the destination has been made. -/
structure Prepared (t u : FileTree α) (subdir : String) (rel : Path) : Prop where
  room : Room t subdir rel
  nodes : ∀ k, u.get? k = if k ≠ [] ∧ k <+: asideDir subdir rel then some .dir else t.get? k

theorem prepared_of (h : t.makedirs (asideDir subdir rel) = some u) : Prepared t u subdir rel :=
  ⟨FileTree.makedirs_isSome_iff.mp (by rw [h]; rfl), FileTree.get?_makedirs h⟩

theorem Prepared.agree (h : Prepared t u subdir rel) : Agree (asideDir subdir rel) t u := by
  intro k hk hne
  rw [h.nodes, if_neg]
  rintro ⟨-, hback⟩
  exact hne (hback.eq_of_length_le hk.length_le)

theorem Prepared.live (h : Prepared t u subdir rel) (hsub : subdir ≠ "quarantine") (r : Path) :
    u.get? (subdir :: rel ++ r) = t.get? (subdir :: rel ++ r) := by
  rw [h.nodes, if_neg]
  rintro ⟨-, hprefix⟩
  exact hsub (List.cons_prefix_cons.mp hprefix).1

theorem Prepared.files (h : Prepared t u subdir rel) {k : Path} {x : α} :
    u.get? k = some (.file x) ↔ t.get? k = some (.file x) := by
  rw [h.nodes]
  split
  · rename_i hk
    exact ⟨nofun, fun hfile => absurd hfile (h.room k hk.1 hk.2 x)⟩
  · rfl

theorem Prepared.elsewhere (h : Prepared t u subdir rel) {k : Path} (hk : ¬["quarantine", subdir] <+: k)
    (hroot : k ≠ ["quarantine"]) : u.get? k = t.get? k := by
  rw [h.nodes, if_neg]
  rintro ⟨hne, hprefix⟩
  cases k with
  | nil => exact hne rfl
  | cons c k =>
    obtain ⟨hc, hrest⟩ := List.cons_prefix_cons.mp hprefix
    cases k with
    | nil => exact hroot (by rw [hc])
    | cons d k =>
      obtain ⟨hd, -⟩ := List.cons_prefix_cons.mp hrest
      exact hk ⟨k, by rw [hc, hd]; rfl⟩

theorem Prepared.stands (h : Prepared t u subdir rel) (y : String) : u.Stands (asideDir subdir rel ++ [y]) := by
  refine ⟨by simp, fun a ha => ?_⟩
  rw [h.nodes, if_pos (FileTree.mem_above_concat.mp ha)]

/-- Nothing is moved. -/
theorem Prepared.unmoved (h : Prepared t u subdir rel) (hsub : subdir ≠ "quarantine") :
    HalfMoved t u subdir rel False False where
  other _ hk hroot _ := h.elsewhere hk hroot
  root _ := h.files
  gone := False.elim
  stays _ := by simpa using h.live hsub []
  kept r _ hfile := .inl ((h.live hsub r).trans hfile)
  shrinks r := .inl (h.live hsub r)
  files _ _ _ _ hfile := h.files.mpr hfile
  lost := False.elim

theorem unmoved (t : FileTree α) (subdir : String) (rel : Path) : HalfMoved t t subdir rel False False where
  other _ _ _ _ := rfl
  root _ := Iff.rfl
  gone := False.elim
  stays _ := rfl
  kept _ _ hfile := .inl hfile
  shrinks _ := .inl rfl
  files _ _ _ _ hfile := hfile
  lost := False.elim

theorem HalfMoved.congr {leaves leaves' overwrites overwrites' : Prop} (h : HalfMoved t u subdir rel leaves overwrites)
    (hleaves : leaves' ↔ leaves) (hover : overwrites' ↔ overwrites) :
    HalfMoved t u subdir rel leaves' overwrites' := by
  rw [hleaves, hover]
  exact h

/-- Below a file there is nothing. -/
theorem file_below {p r : Path} {x : α} (hp : p ≠ []) (h : t.get? p = some (.file x)) (hr : r ≠ []) :
    t.get? (p ++ r) = none :=
  FileTree.get?_below hp hr (by rw [h]; nofun)

/-- The move of a file, where the directory for it is there. -/
theorem moved_file {v : FileTree α} {dest : Path} {x : α} {result : FileTree α × Bool} (hprep : Prepared t u subdir rel)
    (hsub : subdir ≠ "quarantine") (hdest : ["quarantine", subdir] <+: dest)
    (hfile : t.get? (subdir :: rel) = some (.file x))
    (h : FileMoved calls u (subdir :: rel) dest x result) (hv : result.1 = v) :
    HalfMoved t v subdir rel (Takes calls u (subdir :: rel) dest)
      (∃ p y z, Writes calls u (subdir :: rel) dest x p y ∧ u.get? p = some (.file z) ∧ z ≠ y) := by
  have hlive : ∀ r, u.get? (subdir :: rel ++ r) = t.get? (subdir :: rel ++ r) := hprep.live hsub
  have hsource : u.get? (subdir :: rel) = t.get? (subdir :: rel) := by simpa using hlive []
  cases h with
  | nothing hwrites htakes =>
    subst hv
    refine (hprep.unmoved hsub).congr (iff_of_false htakes id) (iff_of_false ?_ id)
    rintro ⟨p, y, z, hw, -⟩
    exact hwrites p y hw
  | left p y t' hp hput hwrites htakes =>
    subst hv
    have hbelow : ["quarantine", subdir] <+: p := hdest.trans hp
    have hroot : p ≠ ["quarantine"] := by
      rintro rfl
      exact absurd hbelow (by simp)
    have hpsrc : p ≠ subdir :: rel := fun heq =>
      not_live rel hsub rfl hbelow (by rw [heq])
    have hget := FileTree.get?_put hput
    have hpk : ∀ r, p ≠ subdir :: rel ++ r := fun r heq =>
      not_live rel hsub rfl hbelow (by rw [heq]; exact List.prefix_append ..)
    have hbelowsrc : ∀ r, t'.get? (subdir :: rel ++ r) = t.get? (subdir :: rel ++ r) := by
      intro r
      rw [hget, if_neg (hpk r), hlive]
    refine ⟨?_, ?_, fun hto => absurd hto htakes, fun _ => ?_, fun r z hz => .inl ((hbelowsrc r).trans hz),
      fun r => .inl (hbelowsrc r), ?_, ?_⟩
    · intro k hk hkroot _
      have hpk : p ≠ k := by
        rintro rfl
        exact hk hbelow
      rw [hget, if_neg hpk, hprep.elsewhere hk hkroot]
    · intro z
      rw [hget, if_neg hroot, hprep.files]
    · rw [hget, if_neg hpsrc, hsource]
    · intro hover k z hk hz
      rw [hget]
      split
      · rename_i heq
        subst heq
        rw [← hprep.files] at hz
        by_contra hne
        exact hover ⟨p, y, z, (hwrites p y).mpr ⟨rfl, rfl⟩, hz, fun hzy => hne (by rw [hzy])⟩
      · exact hprep.files.mpr hz
    · rintro ⟨q, y', z, hw, hz, hne⟩
      obtain ⟨rfl, rfl⟩ := (hwrites q y').mp hw
      refine ⟨q, z, hbelow, hprep.files.mp hz, ?_⟩
      rw [hget, if_pos rfl]
      intro heq
      exact hne (Node.file.inj (Option.some.inj heq)).symm
  | went p t₁ t' hp hput hremove hwrites htakes =>
    subst hv
    have hbelow : ["quarantine", subdir] <+: p := hdest.trans hp
    have hpne : p ≠ [] := by
      rintro rfl
      exact absurd hbelow (by simp)
    have hget : ∀ k, t'.get? k = if subdir :: rel = k then none else if p = k then some (.file x) else u.get? k := by
      intro k
      rw [FileTree.get?_remove hremove, FileTree.get?_put hput]
    have hroot : p ≠ ["quarantine"] := by
      rintro rfl
      exact absurd hbelow (by simp)
    have hpsrc : subdir :: rel ≠ p := fun heq =>
      not_live rel hsub rfl hbelow (by rw [heq])
    have hp' : t'.get? p = some (.file x) := by
      rw [hget, if_neg hpsrc, if_pos rfl]
    have hnone : ∀ r, t'.get? (subdir :: rel ++ r) = none := by
      intro r
      by_cases hr : r = []
      · rw [hr, List.append_nil, hget, if_pos rfl]
      · have hne : subdir :: rel ≠ subdir :: rel ++ r := by simpa using hr
        rw [hget, if_neg hne, if_neg fun heq => not_live rel hsub rfl hbelow (by rw [heq]; exact List.prefix_append ..),
          hlive, file_below (by simp) hfile hr]
    refine ⟨?_, ?_, fun _ => ⟨?_, p, hbelow, ?_⟩, fun hnot => absurd htakes hnot, fun r z hz => .inr ⟨p, hbelow, ?_⟩,
      fun r => .inr (hnone r), ?_, ?_⟩
    · intro k hk hkroot hlivek
      have hpk : p ≠ k := by
        rintro rfl
        exact hk hbelow
      have hsrck : subdir :: rel ≠ k := by
        rintro rfl
        exact hlivek (List.prefix_refl _)
      rw [hget, if_neg hsrck, if_neg hpk, hprep.elsewhere hk hkroot]
    · intro z
      rw [hget, if_neg fun heq => hsub (List.cons.inj heq).1, if_neg hroot, hprep.files]
    · rw [hget, if_pos rfl]
    · intro r
      by_cases hr : r = []
      · rw [hr, List.append_nil, List.append_nil, hp', hfile]
      · rw [file_below hpne hp' hr, file_below (by simp) hfile hr]
    · by_cases hr : r = []
      · rw [hr, List.append_nil, hfile] at hz
        rw [hp', ← Node.file.inj (Option.some.inj hz)]
      · rw [file_below (by simp) hfile hr] at hz
        cases hz
    · intro hover k z hk hz
      rw [hget, if_neg fun heq => hsub (by rw [← heq] at hk; exact Option.some.inj hk)]
      split
      · rename_i heq
        subst heq
        rw [← hprep.files] at hz
        by_contra hne
        exact hover ⟨p, x, z, (hwrites p x).mpr ⟨rfl, rfl⟩, hz, fun hzy => hne (by rw [hzy])⟩
      · exact hprep.files.mpr hz
    · rintro ⟨q, y', z, hw, hz, hne⟩
      obtain ⟨rfl, rfl⟩ := (hwrites q y').mp hw
      refine ⟨q, z, hbelow, hprep.files.mp hz, ?_⟩
      rw [hp']
      intro heq
      exact hne (Node.file.inj (Option.some.inj heq)).symm

/-- The move of a directory. -/
theorem moved_dir {dest : Path} (hprep : Prepared t u subdir rel) (hsub : subdir ≠ "quarantine")
    (hdest : ["quarantine", subdir] <+: dest) (hdir : t.get? (subdir :: rel) = some .dir) :
    HalfMoved t (calls.tree.run u (subdir :: rel) dest).1 subdir rel
      ((calls.tree.run u (subdir :: rel) dest).2 = true) False := by
  have hlive : ∀ r, u.get? (subdir :: rel ++ r) = t.get? (subdir :: rel ++ r) := hprep.live hsub
  have hsource : u.get? (subdir :: rel) = some .dir := by
    rw [← hdir]
    simpa using hlive []
  refine ⟨?_, ?_, fun hgone => ?_, fun hnot => ?_, fun r z hz => ?_, fun r => ?_, fun _ => ?_, False.elim⟩
  · intro k hk hroot hlivek
    rw [calls.tree.elsewhere u _ dest k hsource hlivek fun hd => hk (hdest.trans hd), hprep.elsewhere hk hroot]
  · intro z
    have hroot : ¬subdir :: rel <+: ["quarantine"] := not_live rel hsub rfl (List.prefix_refl _)
    have hnotdest : ¬dest <+: ["quarantine"] := fun hd => absurd (hdest.trans hd) (by simp)
    rw [calls.tree.elsewhere u _ dest _ hsource hroot hnotdest, hprep.files]
  · obtain ⟨hnone, q, hq, hbelow⟩ := calls.tree.gone u _ dest hsource hgone
    refine ⟨hnone, q, hdest.trans hq, fun r => ?_⟩
    rw [hbelow, hlive]
  · rw [calls.tree.stays u _ dest hsource (by simpa using hnot), hdir]
  · rcases calls.tree.kept u _ dest r z hsource ((hlive r).trans hz) with hstays | ⟨q, hq, hcopied⟩
    · exact .inl hstays
    · exact .inr ⟨q, hdest.trans hq, hcopied⟩
  · rw [← hlive r]
    exact calls.tree.shrinks u _ dest r hsource
  · intro k z hk hz
    exact calls.tree.files u _ dest k z hsource (not_live rel hsub hk (List.prefix_refl k)) (hprep.files.mpr hz)

theorem quarantineDestination_eq (calls : Calls α) (t : FileTree α) (subdir : String) {rel : Path} (hrel : rel ≠ []) :
    quarantineDestination calls t subdir rel =
      if calls.makesDirs then
        (t.makedirs (asideDir subdir rel)).map fun u => (u, freeName calls u (quarantinePath subdir rel))
      else none := by
  have hdrop : (quarantinePath subdir rel).dropLast = asideDir subdir rel := by
    cases rel with
    | nil => exact absurd rfl hrel
    | cons x rel => rfl
  unfold quarantineDestination
  dsimp only
  rw [hdrop]
  cases calls.makesDirs <;> rfl

theorem starts_iff (calls : Calls α) (t : FileTree α) (subdir : String) (hrel : rel ≠ []) :
    Starts calls t subdir rel ↔ (quarantineDestination calls t subdir rel).isSome = true := by
  rw [quarantineDestination_eq calls t subdir hrel]
  unfold Starts Room
  rw [← FileTree.makedirs_isSome_iff]
  cases calls.makesDirs with
  | true => simp
  | false => simp

/-- The name for the destination, below the directory for it. -/
theorem freeName_below (calls : Calls α) (t : FileTree α) (subdir : String) (hrel : rel ≠ []) :
    ∃ y, freeName calls t (quarantinePath subdir rel) = asideDir subdir rel ++ [y] := by
  obtain ⟨dir, x, rfl⟩ := (List.eq_nil_or_concat rel).resolve_left hrel
  rw [List.concat_eq_append, quarantinePath_concat]
  obtain ⟨n, hn, -⟩ := freeName_spec calls t (asideDir subdir (dir ++ [x])) x
  obtain ⟨y, hy⟩ := numbered_concat (asideDir subdir (dir ++ [x])) x n
  exact ⟨y, hn.trans hy⟩

theorem Agree.freeName_quarantine (h : Agree (asideDir subdir rel) t u) (calls : Calls α) (hrel : rel ≠ []) :
    QuarantineMoves.freeName calls u (quarantinePath subdir rel) =
      QuarantineMoves.freeName calls t (quarantinePath subdir rel) := by
  obtain ⟨dir, x, rfl⟩ := (List.eq_nil_or_concat rel).resolve_left hrel
  rw [List.concat_eq_append] at h ⊢
  rw [quarantinePath_concat]
  exact h.freeName

/-- A move returns exactly if it leaves nothing at the source. -/
theorem moveOne_spec (calls : Calls α) (t : FileTree α) (subdir : String) {rel : Path} (hrel : rel ≠ [])
    (hsub : subdir ≠ "quarantine") :
    HalfMoved t (moveOne calls t subdir rel).1 subdir rel (Leaves calls t subdir rel)
        (Overwrites calls t subdir rel) ∧
      ((moveOne calls t subdir rel).2 = true ↔ Leaves calls t subdir rel) := by
  have hstarts := starts_iff calls t subdir hrel
  unfold moveOne
  cases hq : quarantineDestination calls t subdir rel with
  | none =>
    rw [hq] at hstarts
    have hnot : ¬Starts calls t subdir rel := fun h => absurd (hstarts.mp h) (by simp)
    exact ⟨(unmoved t subdir rel).congr (iff_of_false (fun h => hnot h.1) id) (iff_of_false (fun h => hnot h.1) id),
      iff_of_false Bool.false_ne_true fun h => hnot h.1⟩
  | some found =>
    obtain ⟨u, dest⟩ := found
    have hgo : Starts calls t subdir rel := hstarts.mpr (by rw [hq]; rfl)
    rw [quarantineDestination_eq calls t subdir hrel, if_pos hgo.1] at hq
    obtain ⟨u', hmade, hfound⟩ := Option.map_eq_some_iff.mp hq
    obtain ⟨rfl, rfl⟩ := Prod.mk.inj hfound
    have hprep := prepared_of hmade
    have hagree := hprep.agree
    have hname := hagree.freeName_quarantine calls hrel
    obtain ⟨y, hy⟩ := freeName_below calls u' subdir hrel
    have hbase : asideDir subdir rel <+: freeName calls u' (quarantinePath subdir rel) := ⟨[y], hy.symm⟩
    have hne : freeName calls u' (quarantinePath subdir rel) ≠ asideDir subdir rel := by
      rw [hy]
      simp
    have hdest : ["quarantine", subdir] <+: freeName calls u' (quarantinePath subdir rel) := by
      rw [hy]
      exact ⟨rel.dropLast ++ [y], rfl⟩
    have hsource : u'.get? (subdir :: rel) = t.get? (subdir :: rel) := by simpa using hprep.live hsub []
    dsimp only
    rw [hsource]
    cases hnode : t.get? (subdir :: rel) with
    | none =>
      have hnot : ¬Leaves calls t subdir rel := by
        rintro ⟨-, ⟨⟨x, hx⟩, -⟩ | ⟨hdir, -⟩⟩
        · rw [hnode] at hx
          cases hx
        · rw [hnode] at hdir
          cases hdir
      refine ⟨(hprep.unmoved hsub).congr (iff_of_false hnot id) (iff_of_false ?_ id),
        iff_of_false Bool.false_ne_true hnot⟩
      · rintro ⟨-, x, -, -, -, hx, -⟩
        rw [hnode] at hx
        cases hx
    | some node =>
      cases node with
      | file x =>
        dsimp only
        have hapart : ¬freeName calls u' (quarantinePath subdir rel) <+: subdir :: rel := fun hp =>
          hsub (List.cons_prefix_cons.mp (hdest.trans hp)).1.symm
        have hstands : u'.Stands (freeName calls u' (quarantinePath subdir rel)) := by
          rw [hy]
          exact hprep.stands y
        have hspec : FileMoved calls u' (subdir :: rel) (freeName calls u' (quarantinePath subdir rel)) x
            (moveFile calls u' (subdir :: rel) (freeName calls u' (quarantinePath subdir rel)) x) :=
          moveFile_spec (hsource.trans hnode) hstands hapart
        have hleaves : Leaves calls t subdir rel ↔
            Takes calls u' (subdir :: rel) (freeName calls u' (quarantinePath subdir rel)) := by
          rw [hagree.takes hbase hne]
          unfold Leaves
          dsimp only
          rw [hname, hnode]
          constructor
          · rintro ⟨-, ⟨-, htakes⟩ | ⟨hdir, -⟩⟩
            · exact htakes
            · cases hdir
          · exact fun htakes => ⟨hgo, .inl ⟨⟨x, rfl⟩, htakes⟩⟩
        refine ⟨(moved_file hprep hsub hdest hnode hspec rfl).congr hleaves ?_, hspec.returned.trans hleaves.symm⟩
        · unfold Overwrites
          rw [hnode]
          constructor
          · rintro ⟨-, x', p, z, w, hx, hw, hz, hne'⟩
            obtain rfl := Node.file.inj (Option.some.inj hx)
            rw [← hname, ← hagree.writes hbase hne] at hw
            exact ⟨p, z, w, hw, hprep.files.mpr hz, hne'⟩
          · rintro ⟨p, z, w, hw, hz, hne'⟩
            rw [hagree.writes hbase hne, hname] at hw
            exact ⟨hgo, x, p, z, w, rfl, hw, hprep.files.mp hz, hne'⟩
      | dir =>
        dsimp only
        have hleaves : Leaves calls t subdir rel ↔
            (calls.tree.run u' (subdir :: rel) (freeName calls u' (quarantinePath subdir rel))).2 = true := by
          unfold Leaves
          dsimp only
          rw [hname, hnode, hmade, Option.getD_some]
          constructor
          · rintro ⟨-, ⟨⟨x, hx⟩, -⟩ | ⟨-, hgone⟩⟩
            · cases hx
            · exact hgone
          · exact fun hgone => ⟨hgo, .inr ⟨rfl, hgone⟩⟩
        refine ⟨(moved_dir hprep hsub hdest hnode).congr hleaves (iff_of_false ?_ id), hleaves.symm⟩
        · rintro ⟨-, x, -, -, -, hx, -⟩
          rw [hnode] at hx
          cases hx

theorem moveOne_moved (calls : Calls α) (t : FileTree α) (subdir : String) {rel : Path} (hrel : rel ≠ [])
    (hsub : subdir ≠ "quarantine") :
    HalfMoved t (moveOne calls t subdir rel).1 subdir rel (Leaves calls t subdir rel)
      (Overwrites calls t subdir rel) := (moveOne_spec calls t subdir hrel hsub).1

/-- A move that returned has taken away what was there. -/
theorem moveOne_returned {calls : Calls α} {t : FileTree α} {subdir : String} {rel : Path} (hrel : rel ≠ [])
    (hsub : subdir ≠ "quarantine") (h : (moveOne calls t subdir rel).2 = true) :
    (moveOne calls t subdir rel).1.get? (subdir :: rel) = none := by
  obtain ⟨hmoved, hleaves⟩ := moveOne_spec calls t subdir hrel hsub
  exact (hmoved.gone (hleaves.mp h)).1

end One

/-! ## Both moves -/

section Both

variable {α : Type}

/-- A path of the cache with metadata. -/
structure Entry (t : FileTree α) where
  path : Path
  nonempty : path ≠ []
  «meta» : α
  there : t.get? (metaPath path) = some (.file «meta»)

/-- The metadata stays in the live cache, or it and the data are in the quarantine and the
    data is not in the live cache; and no quarantined file is overwritten. -/
structure Kept (t u : FileTree α) (rel : Path) : Prop where
  together : u.get? (metaPath rel) = t.get? (metaPath rel) ∨
    Aside t u (metaPath rel) ∧ (t.get? (dataPath rel) ≠ none → Aside t u (dataPath rel)) ∧
      u.get? (dataPath rel) = none
  files : ∀ k x, k.head? = some "quarantine" → t.get? k = some (.file x) → u.get? k = some (.file x)

/-- No move writes over a file, and the metadata does not go without the data. -/
def Sound («data» «meta» : Calls α) (t : FileTree α) (rel : Path) : Prop :=
  ¬Overwrites «data» t "vfs" rel ∧ ¬Overwrites «meta» t "vfsMeta" rel ∧
    (Leaves «meta» t "vfsMeta" rel → t.get? (dataPath rel) ≠ none → Leaves «data» t "vfs" rel)

variable {t u : FileTree α} {rel : Path}

theorem writes_below {calls : Calls α} {src dst p : Path} {x y : α} (h : Writes calls t src dst x p y) : dst <+: p := by
  rcases h.2 with ⟨-, rfl, -⟩ | ⟨-, rfl, -⟩
  · exact realDst_below ..
  · exact copyDst_below ..

/-- What the move of a file does depends on its own half of the cache. -/
theorem half_congr (calls : Calls α) {subdir : String} {x : α} (hrel : rel ≠ [])
    (hagree : Agree (asideDir subdir rel) t u) (hroom : Room u subdir rel ↔ Room t subdir rel)
    (ht : t.get? (subdir :: rel) = some (.file x)) (hu : u.get? (subdir :: rel) = some (.file x)) :
    (Leaves calls u subdir rel ↔ Leaves calls t subdir rel) ∧
      (Overwrites calls u subdir rel ↔ Overwrites calls t subdir rel) := by
  have hname := hagree.freeName_quarantine calls hrel
  obtain ⟨y, hy⟩ := freeName_below calls t subdir hrel
  have hbase : asideDir subdir rel <+: freeName calls t (quarantinePath subdir rel) := ⟨[y], hy.symm⟩
  have hne : freeName calls t (quarantinePath subdir rel) ≠ asideDir subdir rel := by
    rw [hy]
    simp
  have hstarts : Starts calls u subdir rel ↔ Starts calls t subdir rel := by
    unfold Starts
    rw [hroom]
  constructor
  · unfold Leaves
    dsimp only
    rw [hstarts, hname, ht, hu, hagree.takes hbase hne]
    simp
  · unfold Overwrites
    simp only [hstarts, hname, ht, hu, hagree.writes hbase hne]
    refine and_congr_right fun _ => ?_
    refine exists_congr fun x' => exists_congr fun p => exists_congr fun z => exists_congr fun w => ?_
    refine and_congr_right fun _ => and_congr_right fun hw => ?_
    obtain ⟨hb, hn⟩ := below_ne hagree hbase hne (writes_below hw)
    rw [hagree p hb hn]

/-- The move of the data changes nothing for that of the metadata. -/
theorem HalfMoved.meta_agree {leaves overwrites : Prop} (h : HalfMoved t u "vfs" rel leaves overwrites) :
    Agree (asideDir "vfsMeta" rel) t u ∧ (Room u "vfsMeta" rel ↔ Room t "vfsMeta" rel) ∧
      u.get? (metaPath rel) = t.get? (metaPath rel) := by
  have hbelow : ∀ k, ["quarantine", "vfsMeta"] <+: k → u.get? k = t.get? k := by
    rintro k ⟨b, rfl⟩
    exact h.other _ (by simp) (by simp) (by simp)
  refine ⟨fun k hk _ => hbelow k (List.IsPrefix.trans ⟨rel.dropLast, rfl⟩ hk), ?_, h.other _ (by simp [metaPath])
    (by simp [metaPath]) (by simp [metaPath])⟩
  have hsame : ∀ b, b ≠ [] → b <+: asideDir "vfsMeta" rel → ∀ x,
      u.get? b = some (.file x) ↔ t.get? b = some (.file x) := by
    intro b hb hprefix x
    cases b with
    | nil => exact absurd rfl hb
    | cons c b =>
      obtain ⟨rfl, hrest⟩ := List.cons_prefix_cons.mp hprefix
      cases b with
      | nil => exact h.root x
      | cons d b =>
        obtain ⟨rfl, -⟩ := List.cons_prefix_cons.mp hrest
        have hb' := hbelow ("quarantine" :: "vfsMeta" :: b) ⟨b, rfl⟩
        rw [hb']
  constructor
  · exact fun hroom b hb hprefix x hx => hroom b hb hprefix x ((hsame b hb hprefix x).mpr hx)
  · exact fun hroom b hb hprefix x hx => hroom b hb hprefix x ((hsame b hb hprefix x).mp hx)

section Moves

variable {v : FileTree α} {goes goes' overwrites overwrites' : Prop}

theorem HalfMoved.outside (h : HalfMoved t u "vfsMeta" rel goes overwrites) {k : Path}
    (hk : ["quarantine", "vfs"] <+: k) :
    u.get? k = t.get? k := by
  obtain ⟨b, rfl⟩ := hk
  exact h.other _ (by simp) (by simp) (by simp)

theorem HalfMoved.outside_data (h : HalfMoved t u "vfs" rel goes overwrites) {k : Path}
    (hk : ["quarantine", "vfsMeta"] <+: k ∨ metaPath rel <+: k) : u.get? k = t.get? k := by
  rcases hk with ⟨b, rfl⟩ | ⟨b, rfl⟩
  · exact h.other _ (by simp) (by simp) (by simp)
  · exact h.other _ (by simp [metaPath]) (by simp [metaPath]) (by simp [metaPath])

theorem HalfMoved.data_outside (h : HalfMoved t u "vfsMeta" rel goes overwrites) :
    u.get? (dataPath rel) = t.get? (dataPath rel) :=
  h.other _ (by simp [dataPath]) (by simp [dataPath]) (by simp [dataPath])

theorem together_of (hdata : HalfMoved t u "vfs" rel goes overwrites)
    (hmeta : HalfMoved u v "vfsMeta" rel goes' overwrites')
    (hgoes : goes' → t.get? (dataPath rel) ≠ none → goes) :
    v.get? (metaPath rel) = t.get? (metaPath rel) ∨
      Aside t v (metaPath rel) ∧ (t.get? (dataPath rel) ≠ none → Aside t v (dataPath rel)) ∧
        v.get? (dataPath rel) = none := by
  have hlive : ∀ r, u.get? (metaPath rel ++ r) = t.get? (metaPath rel ++ r) := fun r =>
    hdata.outside_data (.inr (List.prefix_append ..))
  by_cases hg : goes'
  · obtain ⟨-, q, hq, hbelow⟩ := hmeta.gone hg
    refine .inr ⟨⟨q, ?_, fun r => (hbelow r).trans (hlive r)⟩, fun hpresent => ?_, ?_⟩
    · obtain ⟨b, rfl⟩ := hq
      rfl
    · obtain ⟨-, q, hq, hbelow⟩ := hdata.gone (hgoes hg hpresent)
      refine ⟨q, ?_, fun r => ?_⟩
      · obtain ⟨b, rfl⟩ := hq
        rfl
      · rw [hmeta.outside (hq.trans (List.prefix_append q r))]
        exact hbelow r
    · rw [hmeta.data_outside]
      by_cases hd : goes
      · exact (hdata.gone hd).1
      · have hstays : u.get? (dataPath rel) = t.get? (dataPath rel) := hdata.stays hd
        rw [hstays]
        by_contra hpresent
        exact hd (hgoes hg hpresent)
  · left
    have hstays : v.get? (metaPath rel) = u.get? (metaPath rel) := hmeta.stays hg
    rw [hstays]
    simpa using hlive []

/-- What both moves leave keeps the entry exactly as far as each of them does. -/
theorem kept_of_moves (e : Entry t) (hdata : HalfMoved t u "vfs" e.path goes overwrites)
    (hmeta : HalfMoved u v "vfsMeta" e.path goes' overwrites') :
    Kept t v e.path ↔
      ¬overwrites ∧ ¬overwrites' ∧ (goes' → t.get? (dataPath e.path) ≠ none → goes) := by
  constructor
  · rintro ⟨htogether, hfiles⟩
    refine ⟨fun hover => ?_, fun hover => ?_, fun hg hpresent => ?_⟩
    · obtain ⟨k, x, hk, hfile, hlost⟩ := hdata.lost hover
      rw [← hmeta.outside hk] at hlost
      obtain ⟨b, rfl⟩ := hk
      exact hlost (hfiles _ x rfl hfile)
    · obtain ⟨k, x, hk, hfile, hlost⟩ := hmeta.lost hover
      rw [hdata.outside_data (.inl hk)] at hfile
      obtain ⟨b, rfl⟩ := hk
      exact hlost (hfiles _ x rfl hfile)
    · rcases htogether with hlive | ⟨-, -, hnone⟩
      · have hgone : v.get? (metaPath e.path) = none := (hmeta.gone hg).1
        rw [hgone, e.there] at hlive
        cases hlive
      · rw [hmeta.data_outside] at hnone
        by_contra hd
        have hstays : u.get? (dataPath e.path) = t.get? (dataPath e.path) := hdata.stays hd
        rw [hnone] at hstays
        exact hpresent hstays.symm
  · rintro ⟨hspares, hspares', hgoes⟩
    exact ⟨together_of hdata hmeta hgoes,
      fun k x hk hfile => hmeta.files hspares' k x hk (hdata.files hspares k x hk hfile)⟩

end Moves

/-- An entry is kept exactly if no move writes over another file, and the metadata does not
    go where the data stays. -/
theorem entry_kept_iff («data» «meta» : Calls α) (t : FileTree α) (e : Entry t) :
    Kept t (quarantineEntry t «data» «meta» e.path) e.path ↔ Sound «data» «meta» t e.path := by
  have hdata := moveOne_moved «data» t "vfs" e.nonempty (by decide)
  obtain ⟨hagree, hroom, hsource⟩ := hdata.meta_agree
  have hmeta := moveOne_moved «meta» (moveOne «data» t "vfs" e.path).1 "vfsMeta" e.nonempty (by decide)
  obtain ⟨hleaves, hover⟩ := half_congr «meta» e.nonempty hagree hroom e.there (hsource.trans e.there)
  exact kept_of_moves e hdata (hmeta.congr hleaves.symm hover.symm)

end Both

/-! ## Where no stat is refused -/

/-- A directory is not moved. -/
def noTreeMove {α : Type} : TreeMove α where
  run t _ _ := (t, false)
  elsewhere _ _ _ _ _ _ _ := rfl
  files _ _ _ _ _ _ _ h := h
  gone _ _ _ _ h := nomatch h
  stays _ _ _ h _ := h
  kept _ _ _ _ _ _ h := .inl h
  shrinks _ _ _ _ _ := .inl rfl

/-! ## The data stays, the metadata goes -/

def oneFile : FileTree String :=
  FileTree.ofNodes
    [(["vfs"], .dir), (["vfs", "gdrive"], .dir), (["vfs", "gdrive", "a.txt"], .file "hello"), (["vfsMeta"], .dir),
     (["vfsMeta", "gdrive"], .dir), (["vfsMeta", "gdrive", "a.txt"], .file "\x7b\"Dirty\": true, \"Size\": 0\x7d")]
    (by decide)

def oneEntry : Entry oneFile where
  path := ["gdrive", "a.txt"]
  nonempty := by decide
  «meta» := "\x7b\"Dirty\": true, \"Size\": 0\x7d"
  there := by decide

def allowed : Calls String := ⟨true, fun _ _ => true, true, .unopened, noTreeMove⟩

/-- The data is neither renamed nor copied. -/
def refused : Calls String := { allowed with renames := false }

theorem the_data_is_left : ¬ ∀ (t : FileTree String) («data» «meta» : Calls String) (e : Entry t),
    Kept t (quarantineEntry t «data» «meta» e.path) e.path := by
  intro h
  rcases (h oneFile refused allowed oneEntry).together with hlive | ⟨-, -, hnone⟩
  · exact absurd hlive (by decide)
  · exact absurd hnone (by decide)

end Errand.Gateway.QuarantineMoves

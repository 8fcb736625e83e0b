import Errand.Gateway.DirtyEntry
import Errand.Lib.FreeNames
import Errand.Lib.Machine

/-
  Errand.Gateway.Reconcile — the reconcile of the VFS cache before the gateway serves
  (`iter_dirty_entries`, `repair_metadata`, `quarantine_entry`, `_clear_orphan`,
  `reconcile_cache`; workspace-gateway/cache_reconcile.py).

  The cache directory is a tree of files, each its length and what `json.load` makes of
  it. What the file system refuses is a `Disk`, the probe is any function with a state of
  its own, and a None of `reconcile_cache` here is an error it raises. The manifest in the
  quarantine directory is left out.

  Proved:
  - `step_torn`: a torn entry stays torn through a step exactly if the step does not settle
    it.
  - `reconciled_iff`: after a reconcile that returned no entry is torn exactly if every one
    that was torn was settled by some step. A failed move is logged and the entry counted
    as quarantined, so it need not be (`a_torn_entry_is_left_in_place`).
-/

namespace Errand.Gateway

open Errand.Lib

/-! ## The cache directory -/

structure CacheFile where
  size : Nat
  /-- None if the file is not JSON. -/
  json : Option Json

abbrev Cache := FileTree CacheFile

def dataPath (rel : Path) : Path := "vfs" :: rel

def metaPath (rel : Path) : Path := "vfsMeta" :: rel

/-- How moving a file ends: it may fail with a copy, whole or in part, left behind. -/
inductive MoveEnd where
  | moved
  | failed (left : Option CacheFile)

/-- Which of the calls on a path the file system refuses, whatever the tree says. -/
structure Disk where
  /-- Every directory below the metadata. -/
  lists : Bool
  opens : Path → Bool
  stats : Path → Bool
  removes : Path → Bool
  writes : Path → Bool
  makesDirs : Path → Bool
  moves : Path → MoveEnd
  /-- `st_size` of a directory. -/
  dirSize : Path → Nat

/-! ## The scan -/

def isDirty («meta» : Json) : Bool := DirtyEntry.truthy (meta.get? "Dirty")

/-- A file stands on the way to the path. -/
def blocked (c : Cache) (p : Path) : Bool :=
  (FileTree.above p).any fun a => match c.get? a with
    | some (.file _) => true
    | _ => false

def statDataFile (disk : Disk) (c : Cache) (p : Path) : Bool × Option Nat :=
  if !disk.stats p then (true, none)
  else
    match c.get? p with
    | some (.file f) => (true, some f.size)
    | some .dir => (true, some (disk.dirSize p))
    | none => if blocked c p then (true, none) else (false, none)

def readEntry (disk : Disk) (c : Cache) (rel : Path) : Option DirtyEntry :=
  match c.get? (metaPath rel) with
  | some (.file f) =>
    if disk.opens (metaPath rel) then
      (f.json.filter isDirty).map fun «meta» =>
        let (present, size) := statDataFile disk c (dataPath rel)
        { path := rel, «meta» := «meta», hasData := present, dataSize := size }
    else none
  | _ => none

/-- The paths of the files below the metadata's root, relative to it. -/
def metaFiles (c : Cache) : List Path :=
  c.paths.filterMap fun
    | "vfsMeta" :: rel => some rel
    | _ => none

/-- None if a directory cannot be listed. -/
def iterDirtyEntries (disk : Disk) (c : Cache) : Option (List DirtyEntry) :=
  if !disk.lists then none
  else
    match c.get? ["vfsMeta"] with
    | none => some []
    | some (.file _) => none
    | some .dir => some ((metaFiles c).filterMap (readEntry disk c))

/-! ## Repair -/

inductive Record where
  | repaired (path : Path) (metaSize : Option Json) (dataSize : Option Nat)
  | quarantined (path : Path) (reason : String) (metaSize : Option Json) (dataSize : Option Nat)
      (quarantinedTo : List Path)
  | cleared (path : Path) (metaSize : Option Json) (removed : List Path)

/-- A path with a suffix on its last component. -/
def withSuffix (p : Path) (suffix : String) : Path := p.dropLast ++ p.getLast?.toList.map (· ++ suffix)

def sizeJson : Option Nat → Json
  | some n => .int n
  | none => .null

def repairedMeta (e : DirtyEntry) : Json :=
  (e.meta.set "Size" (sizeJson e.dataSize)).set "Rs" (.arr [.obj [("Pos", .int 0), ("Size", sizeJson e.dataSize)]])

def repairTmp (rel : Path) : Path := withSuffix (metaPath rel) ".repair.tmp"

/-- None if it raises. -/
def repairMetadata (disk : Disk) (c : Cache) (e : DirtyEntry) : Option (Cache × Record) :=
  if !disk.writes (metaPath e.path) then none
  else
    let file : CacheFile := ⟨(Json.dumps (repairedMeta e)).length, some (repairedMeta e)⟩
    (c.put (repairTmp e.path) file).bind fun c =>
      -- the rename over the metadata
      (c.remove (repairTmp e.path)).bind fun c =>
        (c.put (metaPath e.path) file).map fun c => (c, .repaired e.path (e.meta.get? "Size") e.dataSize)

/-! ## Quarantine -/

def quarantinePath (subdir : String) (rel : Path) : Path := "quarantine" :: subdir :: rel

/-- `dest`, `dest.1`, `dest.2` and so on. -/
def numbered (dest : Path) : Nat → Path
  | 0 => dest
  | n + 1 => withSuffix dest ("." ++ toString (n + 1))

/-- None if the directory for it cannot be made. -/
def quarantineDestination (disk : Disk) (c : Cache) (subdir : String) (rel : Path) : Option (Cache × Path) :=
  let dest := quarantinePath subdir rel
  if !disk.makesDirs dest then none
  else (c.makedirs dest.dropLast).map fun c => (c, c.fresh (numbered dest))

/-- One of the two moves of `quarantine_entry`, and where it went if it did. -/
def moveAside (disk : Disk) (c : Cache) (subdir : String) (rel : Path) : Cache × Option Path :=
  match quarantineDestination disk c subdir rel with
  | none => (c, none)
  | some (c, dest) =>
    if c.get? (subdir :: rel) = none then (c, none)
    else
      match disk.moves (subdir :: rel) with
      | .moved =>
        match c.rename (subdir :: rel) dest with
        | some c => (c, some dest)
        | none => (c, none)
      | .failed none => (c, none)
      | .failed (some copy) => ((c.put dest copy).getD c, none)

def quarantineEntry (disk : Disk) (c : Cache) (e : DirtyEntry) (reason : String) : Cache × Record :=
  -- data first
  let (c, data) := moveAside disk c "vfs" e.path
  let (c, «meta») := moveAside disk c "vfsMeta" e.path
  (c, .quarantined e.path reason (e.meta.get? "Size") e.dataSize (data.toList ++ «meta».toList))

/-! ## Orphans -/

inductive RemoveEnd where
  | removed
  | absent
  | failed
  deriving DecidableEq, Repr

def removeFile (disk : Disk) (c : Cache) (p : Path) : Cache × RemoveEnd :=
  if c.get? p = none then (c, .absent)
  else if !disk.removes p then (c, .failed)
  else
    match c.remove p with
    | some c => (c, .removed)
    | none => (c, .failed)

/-- No record if the metadata is still there. -/
def clearOrphan (disk : Disk) (c : Cache) (e : DirtyEntry) : Cache × Option Record :=
  let (c, dataEnd) := removeFile disk c (dataPath e.path)
  let (c, metaEnd) := removeFile disk c (metaPath e.path)
  if metaEnd = .failed then (c, none)
  else
    let removed := (if dataEnd = .removed then [dataPath e.path] else []) ++
      (if metaEnd = .removed then [metaPath e.path] else [])
    (c, some (.cleared e.path (e.meta.get? "Size") removed))

/-! ## The run -/

structure World (σ : Type) where
  cache : Cache
  probe : σ
  records : List Record

section

variable {σ : Type} (lib : Library) (disk : Disk) (lookup : σ → Path → Status × σ)

/-- One round of the loop of `reconcile_cache`; none if it raises. -/
def reconcileEntry (w : World σ) (e : DirtyEntry) : Option (World σ) :=
  if e.isOrphaned then
    let done := clearOrphan disk w.cache e
    some { w with cache := done.1, records := w.records ++ done.2.toList }
  else if e.isInconsistent then
    let answer := lookup w.probe e.path
    (verdict lib answer.1 e).bind fun
      | .repair => (repairMetadata disk w.cache e).map fun done => ⟨done.1, answer.2, w.records ++ [done.2]⟩
      | .quarantine reason =>
        let done := quarantineEntry disk w.cache e reason
        some ⟨done.1, answer.2, w.records ++ [done.2]⟩
  else some w

def reconciler : Machine (World σ) DirtyEntry where
  init := fun w => w.records = []
  step := reconcileEntry lib disk lookup

def reconcileCache (c : Cache) (probe : σ) : Option (World σ) :=
  (iterDirtyEntries disk c).bind fun entries => (reconciler lib disk lookup).exec ⟨c, probe, []⟩ (sorted entries)

/-- The entries a reconcile gets to, each with the state it finds. -/
def rounds (c : Cache) (probe : σ) : List (World σ × DirtyEntry) :=
  match iterDirtyEntries disk c with
  | some entries => (reconciler lib disk lookup).trace ⟨c, probe, []⟩ (sorted entries)
  | none => []

end

/-! ## What the two moves do -/

theorem withSuffix_concat (p : Path) (x suffix : String) : withSuffix (p ++ [x]) suffix = p ++ [x ++ suffix] := by
  simp [withSuffix]

theorem numbered_concat (p : Path) (x : String) (n : Nat) : ∃ y, numbered (p ++ [x]) n = p ++ [y] := by
  cases n with
  | zero => exact ⟨x, rfl⟩
  | succ n => exact ⟨_, withSuffix_concat ..⟩

theorem numbered_injective (p : Path) (x : String) : Function.Injective (numbered (p ++ [x])) := by
  intro m n h
  cases m with
  | zero =>
    cases n with
    | zero => rfl
    | succ n =>
      rw [numbered, numbered, withSuffix_concat] at h
      have := congrArg String.toList (List.cons.inj (List.append_cancel_left h)).1
      simp at this
  | succ m =>
    cases n with
    | zero =>
      rw [numbered, numbered, withSuffix_concat] at h
      have := congrArg String.toList (List.cons.inj (List.append_cancel_left h)).1
      simp at this
    | succ n =>
      rw [numbered, numbered, withSuffix_concat, withSuffix_concat] at h
      have hnames := congrArg String.toList (List.cons.inj (List.append_cancel_left h)).1
      simp only [String.toList_append, List.append_cancel_left_eq] at hnames
      have := FreeNames.toString_injective (String.toList_inj.mp hnames)
      exact this

/-- No file stands where the destination's directories have to be. -/
def RoomAside (c : Cache) (subdir : String) (rel : Path) : Prop :=
  ∀ a ∈ FileTree.above (quarantinePath subdir rel), ∀ f, c.get? a ≠ some (.file f)

theorem above_quarantinePath (subdir : String) {rel : Path} (a : Path) (hrel : rel ≠ []) :
    a ∈ FileTree.above (quarantinePath subdir rel) ↔ a ≠ [] ∧ a <+: "quarantine" :: subdir :: rel.dropLast := by
  obtain ⟨r, x, rfl⟩ := (List.eq_nil_or_concat rel).resolve_left hrel
  rw [List.concat_eq_append, List.dropLast_concat]
  exact FileTree.mem_above_concat (p := "quarantine" :: subdir :: r)

/-- A destination that was found: free, with every directory above it, and nothing changed
    elsewhere. -/
structure Destination (c c₁ : Cache) (subdir : String) (rel dest : Path) : Prop where
  name : ∃ y, dest = ("quarantine" :: subdir :: rel.dropLast) ++ [y]
  stands : c₁.Stands dest
  free : c₁.get? dest = none
  others : ∀ k, k ∉ FileTree.above (quarantinePath subdir rel) → c₁.get? k = c.get? k
  dirs : ∀ k ∈ FileTree.above (quarantinePath subdir rel), c₁.get? k = some .dir

theorem quarantineDestination_spec {disk : Disk} {c c₁ : Cache} {subdir : String} {rel dest : Path} (hrel : rel ≠ [])
    (h : quarantineDestination disk c subdir rel = some (c₁, dest)) : Destination c c₁ subdir rel dest := by
  have habove := fun a => above_quarantinePath subdir a hrel
  obtain ⟨r, x, rfl⟩ := (List.eq_nil_or_concat rel).resolve_left hrel
  rw [List.concat_eq_append] at h habove ⊢
  simp only [List.dropLast_concat] at habove ⊢
  have hpath : quarantinePath subdir (r ++ [x]) = ("quarantine" :: subdir :: r) ++ [x] := rfl
  simp only [quarantineDestination, hpath, List.dropLast_concat] at h
  split at h
  · cases h
  · obtain ⟨c', hc', e⟩ := Option.map_eq_some_iff.mp h
    cases e
    obtain ⟨hfree, n, hn⟩ := FileTree.fresh_spec (t := c₁) (numbered_injective ("quarantine" :: subdir :: r) x)
    obtain ⟨y, hy⟩ := numbered_concat ("quarantine" :: subdir :: r) x n
    have hdirs := FileTree.get?_makedirs hc'
    rw [hn, hy] at hfree ⊢
    refine ⟨⟨y, by rw [List.dropLast_concat]⟩, ⟨by simp, ?_⟩, hfree, ?_, ?_⟩
    · intro a ha
      rw [hdirs, if_pos (FileTree.mem_above_concat.mp ha)]
    · intro k hk
      rw [hdirs, if_neg fun h => hk ((habove k).mpr h)]
    · intro k hk
      rw [hdirs, if_pos ((habove k).mp hk)]

theorem quarantineDestination_isSome_iff {disk : Disk} {c : Cache} {subdir : String} {rel : Path} (hrel : rel ≠ []) :
    (quarantineDestination disk c subdir rel).isSome = true ↔
      disk.makesDirs (quarantinePath subdir rel) = true ∧ RoomAside c subdir rel := by
  have hdrop : (quarantinePath subdir rel).dropLast = "quarantine" :: subdir :: rel.dropLast := by
    cases rel with
    | nil => exact absurd rfl hrel
    | cons x rel => rfl
  have hroom : (c.makedirs ("quarantine" :: subdir :: rel.dropLast)).isSome = true ↔ RoomAside c subdir rel := by
    rw [FileTree.makedirs_isSome_iff]
    constructor
    · intro h a ha
      obtain ⟨hne, hp⟩ := (above_quarantinePath _ _ hrel).mp ha
      exact h a hne hp
    · intro h a hne hp
      exact h a ((above_quarantinePath _ _ hrel).mpr ⟨hne, hp⟩)
  unfold quarantineDestination
  by_cases hm : disk.makesDirs (quarantinePath subdir rel) = true
  · simp [hm, hdrop, hroom]
  · simp [hm]

/-- Where a move leaves each path: what was at the source and below is gone if it went, what
    stands outside the quarantine of its own half of the cache is as before. -/
structure Moved (c c' : Cache) (subdir : String) (rel : Path) (went : Prop) : Prop where
  gone : went → ∀ k, subdir :: rel <+: k → c'.get? k = none
  live : ∀ k, k.head? ≠ some "quarantine" → ¬(went ∧ subdir :: rel <+: k) → c'.get? k = c.get? k
  aside : ∀ half, half ≠ subdir → half ≠ "quarantine" → ∀ r, r ≠ [] → (RoomAside c' half r ↔ RoomAside c half r)

theorem Destination.not_prefix_live {c c₁ : Cache} {subdir : String} {rel dest k : Path}
    (h : Destination c c₁ subdir rel dest) (hk : k.head? ≠ some "quarantine") : ¬dest <+: k := by
  obtain ⟨y, rfl⟩ := h.name
  intro hbase
  rcases hbase with ⟨b, rfl⟩
  exact hk rfl

theorem Destination.not_prefix_above {c c₁ : Cache} {subdir half : String} {rel dest r a : Path}
    (h : Destination c c₁ subdir rel dest) (hhalf : half ≠ subdir) (hr : r ≠ [])
    (ha : a ∈ FileTree.above (quarantinePath half r)) : ¬dest <+: a := by
  obtain ⟨y, rfl⟩ := h.name
  intro hp
  have hlong := hp.trans ((above_quarantinePath _ _ hr).mp ha).2
  simp only [List.cons_append, List.cons_prefix_cons, true_and] at hlong
  exact hhalf hlong.1.symm

/-- Finding the destination moves nothing. -/
theorem quarantineDestination_moved {disk : Disk} {c c₁ : Cache} {subdir : String} {rel dest : Path} (hrel : rel ≠ [])
    (h : quarantineDestination disk c subdir rel = some (c₁, dest)) : Moved c c₁ subdir rel False := by
  have hd := quarantineDestination_spec hrel h
  have hroom : RoomAside c subdir rel := ((quarantineDestination_isSome_iff hrel).mp (by rw [h]; rfl)).2
  refine ⟨False.elim, ?_, ?_⟩
  · intro k hk _
    refine hd.others k fun ha => ?_
    obtain ⟨hne, b, hb⟩ := (above_quarantinePath _ _ hrel).mp ha
    cases k with
    | nil => exact hne rfl
    | cons x k =>
      rw [List.cons_append, List.cons.injEq] at hb
      exact hk (by rw [hb.1]; rfl)
  · intro half _ _ r _
    have hsame : ∀ a f, c₁.get? a = some (.file f) ↔ c.get? a = some (.file f) := by
      intro a f
      by_cases ha : a ∈ FileTree.above (quarantinePath subdir rel)
      · rw [hd.dirs a ha]
        exact ⟨nofun, fun hf => absurd hf (hroom a ha f)⟩
      · rw [hd.others a ha]
    simp only [RoomAside, ne_eq, hsame]

/-- The move itself, made or failed, once the destination is there. -/
theorem Moved.then {c c₁ c₂ : Cache} {subdir : String} {rel dest : Path} {went : Prop}
    (h : Moved c c₁ subdir rel False) (hd : Destination c c₁ subdir rel dest) (hsub : subdir ≠ "quarantine")
    (hdest : ∀ k, ¬dest <+: k → ¬(went ∧ subdir :: rel <+: k) → c₂.get? k = c₁.get? k)
    (hgone : went → ∀ k, ¬dest <+: k → subdir :: rel <+: k → c₂.get? k = none) : Moved c c₂ subdir rel went := by
  refine ⟨?_, ?_, ?_⟩
  · intro hw k hk
    refine hgone hw k (hd.not_prefix_live ?_) hk
    obtain ⟨b, rfl⟩ := hk
    exact fun e => hsub (Option.some.inj e)
  · intro k hk hn
    rw [hdest k (hd.not_prefix_live hk) hn, h.live k hk (fun e => e.1)]
  · intro half hhalf hq r hr
    rw [← h.aside half hhalf hq r hr]
    have hsame : ∀ a ∈ FileTree.above (quarantinePath half r), c₂.get? a = c₁.get? a := by
      intro a ha
      refine hdest a (hd.not_prefix_above hhalf hr ha) fun hw => ?_
      obtain ⟨b, hb⟩ := hw.2.trans ((above_quarantinePath _ _ hr).mp ha).2
      rw [List.cons_append, List.cons.injEq] at hb
      exact hsub hb.1
    constructor
    · intro hroom a ha
      rw [← hsame a ha]
      exact hroom a ha
    · intro hroom a ha
      rw [hsame a ha]
      exact hroom a ha

/-- Whether a move to quarantine goes through, given that there is something to move. -/
def Goes (disk : Disk) (c : Cache) (subdir : String) (rel : Path) : Prop :=
  disk.makesDirs (quarantinePath subdir rel) = true ∧ RoomAside c subdir rel ∧ disk.moves (subdir :: rel) = .moved

theorem moveAside_spec (disk : Disk) (c : Cache) {subdir : String} {rel : Path} (hrel : rel ≠ [])
    (hsub : subdir ≠ "quarantine") :
    Moved c (moveAside disk c subdir rel).1 subdir rel (c.get? (subdir :: rel) ≠ none ∧ Goes disk c subdir rel) := by
  unfold moveAside
  cases hq : quarantineDestination disk c subdir rel with
  | none =>
    have hnot : ¬Goes disk c subdir rel := by
      intro hg
      have := (quarantineDestination_isSome_iff hrel).mpr ⟨hg.1, hg.2.1⟩
      rw [hq] at this
      cases this
    exact ⟨fun h => absurd h.2 hnot, fun _ _ _ => rfl, fun _ _ _ _ _ => Iff.rfl⟩
  | some found =>
    obtain ⟨c₁, dest⟩ := found
    have hd := quarantineDestination_spec hrel hq
    have hmade := quarantineDestination_moved hrel hq
    have hroom := (quarantineDestination_isSome_iff hrel).mp (by rw [hq]; rfl)
    have hsrc : c₁.get? (subdir :: rel) = c.get? (subdir :: rel) :=
      hmade.live _ (fun e => hsub (Option.some.inj e)) fun h => h.1
    simp only
    split
    · -- nothing to move
      rename_i hnone
      refine hmade.then hd hsub (fun _ _ _ => rfl) fun h => absurd (hsrc ▸ hnone) h.1
    · rename_i hsome
      have hpresent : c.get? (subdir :: rel) ≠ none := hsrc ▸ hsome
      cases hm : disk.moves (subdir :: rel) with
      | failed left =>
        have hnot : ¬Goes disk c subdir rel := by
          intro hgone
          rcases hgone with ⟨-, -, hg⟩
          rw [hm] at hg
          cases hg
        cases left with
        | none => exact hmade.then hd hsub (fun _ _ _ => rfl) fun h => absurd h.2 hnot
        | some copy =>
          have hcopy : ∀ k, ¬dest <+: k → ((c₁.put dest copy).getD c₁).get? k = c₁.get? k := by
            intro k hk
            cases hp : c₁.put dest copy with
            | none => rfl
            | some c₂ =>
              rw [Option.getD_some, FileTree.get?_put hp, if_neg]
              intro heq
              subst heq
              exact hk (List.prefix_refl _)
          exact hmade.then hd hsub (fun k hk _ => hcopy k hk) fun h => absurd h.2 hnot
      | moved =>
        have hgoes : Goes disk c subdir rel := ⟨hroom.1, hroom.2, hm⟩
        have hmovable : c₁.Movable (subdir :: rel) dest := by
          refine ⟨by simp, hsome, hd.stands, hd.free, ?_⟩
          obtain ⟨y, rfl⟩ := hd.name
          intro hbase
          rcases hbase with ⟨b, hb⟩
          rw [List.cons_append, List.cons_append, List.cons.injEq] at hb
          exact hsub hb.1
        obtain ⟨c₂, hr⟩ := Option.isSome_iff_exists.mp (FileTree.rename_isSome_iff.mpr hmovable)
        simp only [hr]
        refine hmade.then hd hsub (fun k hk hn => ?_) fun _ k hk hp => ?_
        · rw [FileTree.get?_rename hr, if_neg hk, if_neg fun hp => hn ⟨⟨hpresent, hgoes⟩, hp⟩]
        · rw [FileTree.get?_rename hr, if_neg hk, if_pos hp]

/-! ## Torn entries -/

/-- Dirty at its path in the live cache, with data that the metadata does not know of. -/
def torn (c : Cache) (rel : Path) : Bool :=
  match c.get? (metaPath rel), c.get? (dataPath rel) with
  | some (.file m), some (.file d) =>
    d.size != 0 && m.json.any fun j =>
      isDirty j && !DirtyEntry.truthy (j.get? "Size") && !DirtyEntry.truthy (j.get? "Rs")
  | _, _ => false

theorem torn_congr {c c' : Cache} {rel : Path} (hm : c'.get? (metaPath rel) = c.get? (metaPath rel))
    (hd : c'.get? (dataPath rel) = c.get? (dataPath rel)) : torn c' rel = torn c rel := by
  unfold torn
  rw [hm, hd]

theorem torn_missing {c : Cache} {rel : Path} (h : c.get? (metaPath rel) = none ∨ c.get? (dataPath rel) = none) :
    torn c rel = false := by
  unfold torn
  rcases h with h | h
  · rw [h]
  · rw [h]
    split
    · rename_i hn
      cases hn
    · rfl

/-- Metadata that says what the data file is, in full. -/
def SaysAll (f : CacheFile) (n : Nat) : Prop :=
  ∃ j, f.json = some j ∧ j.get? "Size" = some (.int n) ∧
    j.get? "Rs" = some (.arr [.obj [("Pos", .int 0), ("Size", .int n)]])

theorem torn_saysAll {c : Cache} {rel : Path} {f : CacheFile} {n : Nat} (hm : c.get? (metaPath rel) = some (.file f))
    (hf : SaysAll f n) (hn : n ≠ 0) : torn c rel = false := by
  obtain ⟨j, hj, hsize, -⟩ := hf
  unfold torn
  rw [hm]
  split
  · rename_i m d hm' _
    cases hm'
    simp [hj, hsize, DirtyEntry.truthy, Json.truthy, hn]
  · rfl

/-- What the runs start from: each entry is what the scan read at its path. -/
def Scanned (disk : Disk) (c : Cache) (e : DirtyEntry) : Prop := e.path ≠ [] ∧ readEntry disk c e.path = some e

theorem scanned_of_mem {disk : Disk} {c : Cache} {entries : List DirtyEntry} (h : iterDirtyEntries disk c = some entries)
    {e : DirtyEntry} (he : e ∈ sorted entries) : Scanned disk c e := by
  unfold iterDirtyEntries at h
  split at h
  · cases h
  · split at h
    · cases h
      exact absurd (mem_sorted.mp he) List.not_mem_nil
    · cases h
    · rename_i hroot
      cases h
      obtain ⟨rel, -, hread⟩ := List.mem_filterMap.mp (mem_sorted.mp he)
      have hpath : e.path = rel := by
        unfold readEntry at hread
        split at hread
        · split at hread
          · obtain ⟨j, -, rfl⟩ := Option.map_eq_some_iff.mp hread
            rfl
          · cases hread
        · cases hread
      subst hpath
      refine ⟨fun hnil => ?_, hread⟩
      rw [hnil] at hread
      simp [readEntry, metaPath, hroot] at hread

/-- What is known of a scanned entry. -/
theorem Scanned.spec {disk : Disk} {c : Cache} {e : DirtyEntry} (h : Scanned disk c e) :
    (∃ f, c.get? (metaPath e.path) = some (.file f)) ∧ isDirty e.meta = true ∧
      statDataFile disk c (dataPath e.path) = (e.hasData, e.dataSize) := by
  obtain ⟨-, hread⟩ := h
  unfold readEntry at hread
  split at hread
  · rename_i f hf
    split at hread
    · obtain ⟨j, hj, he⟩ := Option.map_eq_some_iff.mp hread
      obtain ⟨-, hdirty⟩ := Option.filter_eq_some_iff.mp hj
      rw [← he]
      exact ⟨⟨f, hf⟩, hdirty, rfl⟩
    · cases hread
  · cases hread

/-- What a reconcile may have made of the live cache it found. -/
structure Kept (disk : Disk) (c₀ c : Cache) : Prop where
  «meta» : ∀ rel, c.get? (metaPath rel) = c₀.get? (metaPath rel) ∨ c.get? (metaPath rel) = none ∨
    ∃ f n, c.get? (metaPath rel) = some (.file f) ∧ SaysAll f n ∧ n ≠ 0 ∧
      c₀.get? (metaPath rel) ≠ none ∧ statDataFile disk c₀ (dataPath rel) = (true, some n)
  data : ∀ rel, c.get? (dataPath rel) = c₀.get? (dataPath rel) ∨ c.get? (dataPath rel) = none

theorem Kept.refl (disk : Disk) (c : Cache) : Kept disk c c := ⟨fun _ => Or.inl rfl, fun _ => Or.inl rfl⟩

/-- Taking things away keeps it. -/
theorem Kept.shrink {disk : Disk} {c₀ c c' : Cache} (h : Kept disk c₀ c)
    (hm : ∀ rel, c'.get? (metaPath rel) = c.get? (metaPath rel) ∨ c'.get? (metaPath rel) = none)
    (hd : ∀ rel, c'.get? (dataPath rel) = c.get? (dataPath rel) ∨ c'.get? (dataPath rel) = none) : Kept disk c₀ c' := by
  refine ⟨fun rel => ?_, fun rel => ?_⟩
  · rcases hm rel with e | e
    · rw [e]
      exact h.meta rel
    · exact Or.inr (Or.inl e)
  · rcases hd rel with e | e
    · rw [e]
      exact h.data rel
    · exact Or.inr e

/-- Where no metadata was, there is none. -/
theorem Kept.meta_none {disk : Disk} {c₀ c : Cache} (h : Kept disk c₀ c) {rel : Path}
    (h0 : c₀.get? (metaPath rel) = none) : c.get? (metaPath rel) = none := by
  rcases h.meta rel with e | e | ⟨_, _, -, -, -, hne, -⟩
  · rw [e, h0]
  · exact e
  · exact absurd h0 hne

theorem Kept.data_none {disk : Disk} {c₀ c : Cache} (h : Kept disk c₀ c) {rel : Path}
    (h0 : c₀.get? (dataPath rel) = none) : c.get? (dataPath rel) = none := by
  rcases h.data rel with e | e
  · rw [e, h0]
  · exact e

/-! ## What a round does to the live cache -/

theorem get?_removeFile (disk : Disk) (c : Cache) (p k : Path) :
    (removeFile disk c p).1.get? k = c.get? k ∨ k = p ∧ (removeFile disk c p).1.get? k = none := by
  unfold removeFile
  split
  · exact Or.inl rfl
  · split
    · exact Or.inl rfl
    · split
      · rename_i c' hc'
        rw [FileTree.get?_remove hc' k]
        by_cases e : p = k
        · rw [if_pos e]
          exact Or.inr ⟨e.symm, rfl⟩
        · rw [if_neg e]
          exact Or.inl rfl
      · exact Or.inl rfl

/-- Clearing an orphan touches the two files of the entry only. -/
theorem get?_clearOrphan (disk : Disk) (c : Cache) (e : DirtyEntry) (k : Path) :
    (clearOrphan disk c e).1.get? k = c.get? k ∨
      (k = dataPath e.path ∨ k = metaPath e.path) ∧ (clearOrphan disk c e).1.get? k = none := by
  have hcache : (clearOrphan disk c e).1 =
      (removeFile disk (removeFile disk c (dataPath e.path)).1 (metaPath e.path)).1 := by
    simp only [clearOrphan]
    split
    · rfl
    · rfl
  rw [hcache]
  rcases get?_removeFile disk (removeFile disk c (dataPath e.path)).1 (metaPath e.path) k with h | ⟨hk, h⟩
  · rw [h]
    rcases get?_removeFile disk c (dataPath e.path) k with h' | ⟨hk, h'⟩
    · exact Or.inl h'
    · exact Or.inr ⟨Or.inl hk, h'⟩
  · exact Or.inr ⟨Or.inr hk, h⟩

theorem orphan_data_none {disk : Disk} {c₀ : Cache} {e : DirtyEntry} (he : Scanned disk c₀ e)
    (ho : e.isOrphaned = true) : c₀.get? (dataPath e.path) = none := by
  obtain ⟨-, -, hstat⟩ := he.spec
  have hdata : e.hasData = false := by simpa [DirtyEntry.isOrphaned] using ho
  rw [hdata] at hstat
  unfold statDataFile at hstat
  split at hstat
  · simp at hstat
  · split at hstat
    · simp at hstat
    · simp at hstat
    · assumption

theorem clearOrphan_spec {disk : Disk} {c₀ c : Cache} {e : DirtyEntry} (he : Scanned disk c₀ e)
    (ho : e.isOrphaned = true) (hk : Kept disk c₀ c) :
    Kept disk c₀ (clearOrphan disk c e).1 ∧ ∀ rel, torn (clearOrphan disk c e).1 rel = torn c rel := by
  have hkept : Kept disk c₀ (clearOrphan disk c e).1 := by
    refine hk.shrink (fun rel => ?_) (fun rel => ?_)
    · rcases get?_clearOrphan disk c e (metaPath rel) with h | ⟨-, h⟩
      · exact Or.inl h
      · exact Or.inr h
    · rcases get?_clearOrphan disk c e (dataPath rel) with h | ⟨-, h⟩
      · exact Or.inl h
      · exact Or.inr h
  refine ⟨hkept, fun rel => ?_⟩
  by_cases hrel : rel = e.path
  · -- there is no data, before or after
    subst hrel
    have h0 := orphan_data_none he ho
    rw [torn_missing (Or.inr (hkept.data_none h0)), torn_missing (Or.inr (hk.data_none h0))]
  · refine torn_congr ?_ ?_
    · rcases get?_clearOrphan disk c e (metaPath rel) with h | ⟨h, -⟩
      · exact h
      · simp [metaPath, dataPath, hrel] at h
    · rcases get?_clearOrphan disk c e (dataPath rel) with h | ⟨h, -⟩
      · exact h
      · simp [metaPath, dataPath, hrel] at h

theorem repairTmp_eq {rel : Path} (h : rel ≠ []) : repairTmp rel = metaPath (withSuffix rel ".repair.tmp") := by
  obtain ⟨r, x, rfl⟩ := (List.eq_nil_or_concat rel).resolve_left h
  rw [List.concat_eq_append, withSuffix_concat]
  exact withSuffix_concat ("vfsMeta" :: r) x _

theorem get?_repairMetadata {disk : Disk} {c c' : Cache} {e : DirtyEntry} {record : Record}
    (h : repairMetadata disk c e = some (c', record)) :
    (∃ size, c'.get? (metaPath e.path) = some (.file ⟨size, some (repairedMeta e)⟩)) ∧
      ∀ k, k ≠ metaPath e.path → c'.get? k = if k = repairTmp e.path then none else c.get? k := by
  unfold repairMetadata at h
  split at h
  · cases h
  · obtain ⟨c₁, h1, h⟩ := Option.bind_eq_some_iff.mp h
    obtain ⟨c₂, h2, h⟩ := Option.bind_eq_some_iff.mp h
    obtain ⟨c₃, h3, h⟩ := Option.map_eq_some_iff.mp h
    cases h
    refine ⟨⟨_, by rw [FileTree.get?_put h3, if_pos rfl]⟩, fun k hk => ?_⟩
    rw [FileTree.get?_put h3, if_neg (Ne.symm hk), FileTree.get?_remove h2, FileTree.get?_put h1]
    by_cases e' : repairTmp e.path = k
    · rw [if_pos e', if_pos e'.symm]
    · rw [if_neg e', if_neg e', if_neg (Ne.symm e')]

theorem inconsistent_spec {e : DirtyEntry} (h : e.isInconsistent = true) :
    e.hasData = true ∧ ∃ n, e.dataSize = some n ∧ n ≠ 0 := by
  simp only [DirtyEntry.isInconsistent, Bool.and_eq_true, Option.any_eq_true_iff_get] at h
  obtain ⟨⟨⟨hdata, hsize⟩, -⟩, -⟩ := h
  obtain ⟨hs, hn⟩ := hsize
  exact ⟨hdata, _, (Option.some_get hs).symm, by simpa using hn⟩

theorem repairedMeta_saysAll {e : DirtyEntry} (hd : isDirty e.meta = true) (size : Nat) {n : Nat} (hn : e.dataSize = some n) :
    SaysAll ⟨size, some (repairedMeta e)⟩ n := by
  obtain ⟨fields, hobj⟩ : ∃ fields, e.meta = .obj fields := by
    unfold isDirty at hd
    cases hm : e.meta with
    | obj fields => exact ⟨fields, rfl⟩
    | _ => simp [hm, Json.get?, DirtyEntry.truthy] at hd
  refine ⟨_, rfl, ?_, ?_⟩
  · rw [repairedMeta, Json.get?_set_other _ (by decide), hobj, hn]
    exact Json.lookup_setField_self ..
  · rw [repairedMeta, hobj, hn]
    exact Json.lookup_setField_self ..

theorem repairMetadata_spec {disk : Disk} {c₀ c c' : Cache} {e : DirtyEntry} {record : Record} (he : Scanned disk c₀ e)
    (hi : e.isInconsistent = true) (hk : Kept disk c₀ c) (h : repairMetadata disk c e = some (c', record)) :
    Kept disk c₀ c' ∧ ∀ rel, (torn c' rel = true ↔
      torn c rel = true ∧ ¬(rel = e.path ∨ rel = withSuffix e.path ".repair.tmp")) := by
  obtain ⟨⟨size, hmeta⟩, hother⟩ := get?_repairMetadata h
  obtain ⟨⟨f, hf⟩, hdirty, hstat⟩ := he.spec
  obtain ⟨hdata, n, hn, hn0⟩ := inconsistent_spec hi
  have hsays := repairedMeta_saysAll hdirty size hn
  rw [repairTmp_eq he.1] at hother
  have hdataPath : ∀ rel, c'.get? (dataPath rel) = c.get? (dataPath rel) := by
    intro rel
    rw [hother _ (by simp [dataPath, metaPath]), if_neg (by simp [dataPath, metaPath])]
  have hmetaPath : ∀ rel, rel ≠ e.path →
      c'.get? (metaPath rel) = if rel = withSuffix e.path ".repair.tmp" then none else c.get? (metaPath rel) := by
    intro rel hrel
    rw [hother _ (by simpa [metaPath] using hrel)]
    simp [metaPath]
  refine ⟨⟨fun rel => ?_, fun rel => ?_⟩, fun rel => ?_⟩
  · by_cases hrel : rel = e.path
    · subst hrel
      refine Or.inr (Or.inr ⟨_, n, hmeta, hsays, hn0, by rw [hf]; simp, ?_⟩)
      rw [hstat, hdata, hn]
    · rw [hmetaPath rel hrel]
      split
      · exact Or.inr (Or.inl rfl)
      · exact hk.meta rel
  · rw [hdataPath rel]
    exact hk.data rel
  · by_cases hrel : rel = e.path
    · subst hrel
      rw [torn_saysAll hmeta hsays hn0]
      simp
    · by_cases htmp : rel = withSuffix e.path ".repair.tmp"
      · rw [torn_missing (Or.inl (by rw [hmetaPath rel hrel, if_pos htmp]))]
        simp [htmp]
      · rw [torn_congr (by rw [hmetaPath rel hrel, if_neg htmp]) (hdataPath rel)]
        simp [hrel, htmp]

theorem quarantineEntry_spec {disk : Disk} {c₀ c : Cache} {e : DirtyEntry} (reason : String) (he : Scanned disk c₀ e)
    (hk : Kept disk c₀ c) :
    Kept disk c₀ (quarantineEntry disk c e reason).1 ∧ ∀ rel, (torn (quarantineEntry disk c e reason).1 rel = true ↔
      torn c rel = true ∧ ¬(rel = e.path ∧ (Goes disk c "vfs" rel ∨ Goes disk c "vfsMeta" rel))) := by
  have hdata := moveAside_spec disk c he.1 (show "vfs" ≠ "quarantine" by decide)
  have hmeta := moveAside_spec disk (moveAside disk c "vfs" e.path).1 he.1
    (show "vfsMeta" ≠ "quarantine" by decide)
  have hcache : (quarantineEntry disk c e reason).1 =
      (moveAside disk (moveAside disk c "vfs" e.path).1 "vfsMeta" e.path).1 := rfl
  rw [hcache]
  generalize (moveAside disk c "vfs" e.path).1 = c₁ at hdata hmeta ⊢
  generalize (moveAside disk c₁ "vfsMeta" e.path).1 = c₂ at hmeta ⊢
  have hgoes : Goes disk c₁ "vfsMeta" e.path ↔ Goes disk c "vfsMeta" e.path := by
    rw [Goes, Goes, hdata.aside "vfsMeta" (by decide) (by decide) e.path he.1]
  rw [hgoes] at hmeta
  -- each half of the live cache is touched by its own move only
  have hm1 : ∀ rel, c₁.get? (metaPath rel) = c.get? (metaPath rel) := fun rel =>
    hdata.live _ (by simp [metaPath]) (by simp [metaPath])
  have hd2 : ∀ rel, c₂.get? (dataPath rel) = c₁.get? (dataPath rel) := fun rel =>
    hmeta.live _ (by simp [dataPath]) (by simp [dataPath])
  rw [show ("vfsMeta" :: e.path) = metaPath e.path from rfl, hm1] at hmeta
  rw [show ("vfs" :: e.path) = dataPath e.path from rfl] at hdata
  have hkept : Kept disk c₀ c₂ := by
    refine hk.shrink (fun rel => ?_) (fun rel => ?_)
    · rw [← hm1]
      by_cases hgone : (c.get? (metaPath e.path) ≠ none ∧ Goes disk c "vfsMeta" e.path) ∧ metaPath e.path <+: metaPath rel
      · exact Or.inr (hmeta.gone hgone.1 _ hgone.2)
      · exact Or.inl (hmeta.live _ (by simp [metaPath]) hgone)
    · rw [hd2]
      by_cases hgone : (c.get? (dataPath e.path) ≠ none ∧ Goes disk c "vfs" e.path) ∧ dataPath e.path <+: dataPath rel
      · exact Or.inr (hdata.gone hgone.1 _ hgone.2)
      · exact Or.inl (hdata.live _ (by simp [dataPath]) hgone)
  refine ⟨hkept, fun rel => ?_⟩
  by_cases hrel : rel = e.path
  · subst hrel
    by_cases hnone : c.get? (metaPath e.path) = none ∨ c.get? (dataPath e.path) = none
    · -- nothing torn before, and nothing after
      have hafter : c₂.get? (metaPath e.path) = none ∨ c₂.get? (dataPath e.path) = none := by
        rcases hnone with h | h
        · left
          rw [hmeta.live _ (by simp [metaPath]) fun hg => hg.1.1 h, hm1, h]
        · right
          rw [hd2, hdata.live _ (by simp [dataPath]) fun hg => hg.1.1 h, h]
      rw [torn_missing hnone, torn_missing hafter]
      simp
    · push Not at hnone
      by_cases hdgo : Goes disk c "vfs" e.path
      · have hgone : c₂.get? (dataPath e.path) = none := by
          rw [hd2]
          exact hdata.gone ⟨hnone.2, hdgo⟩ _ (List.prefix_refl _)
        rw [torn_missing (Or.inr hgone)]
        simp [hdgo]
      · by_cases hmgo : Goes disk c "vfsMeta" e.path
        · have hgone := hmeta.gone ⟨hnone.1, hmgo⟩ _ (List.prefix_refl _)
          rw [torn_missing (Or.inl hgone)]
          simp [hmgo]
        · rw [torn_congr ((hmeta.live _ (by simp [metaPath]) fun hg => hmgo hg.1.2).trans (hm1 _))
            ((hd2 _).trans (hdata.live _ (by simp [dataPath]) fun hg => hdgo hg.1.2))]
          simp [hdgo, hmgo]
  · by_cases hbelow : e.path <+: rel
    · -- below a path where a file was there was no metadata
      obtain ⟨⟨f, hf⟩, -, -⟩ := he.spec
      obtain ⟨b, rfl⟩ := hbelow
      have hb : b ≠ [] := by
        intro heq
        subst heq
        exact hrel (List.append_nil _)
      have h0 : c₀.get? (metaPath (e.path ++ b)) = none :=
        FileTree.get?_below (p := metaPath e.path) (by simp [metaPath]) hb (by rw [hf]; simp)
      rw [torn_missing (Or.inl (hk.meta_none h0)), torn_missing (Or.inl (hkept.meta_none h0))]
      simp
    · have hm2 := hmeta.live (metaPath rel) (by simp [metaPath]) fun hg => hbelow (by simpa [metaPath] using hg.2)
      have hd1 := hdata.live (dataPath rel) (by simp [dataPath]) fun hg => hbelow (by simpa [dataPath] using hg.2)
      rw [torn_congr (hm2.trans (hm1 rel)) ((hd2 rel).trans hd1)]
      simp [hrel]

/-! ## Runs -/

section

variable {σ : Type} (lib : Library) (disk : Disk) (lookup : σ → Path → Status × σ)

/-- The round settles what is at the path: the entry there is repaired, or one of its two
    files goes to quarantine, or its metadata is overwritten on the way of a repair. -/
def Settles (w : World σ) (e : DirtyEntry) (rel : Path) : Prop :=
  e.isInconsistent = true ∧
    match verdict lib (lookup w.probe e.path).1 e with
    | some .repair => rel = e.path ∨ rel = withSuffix e.path ".repair.tmp"
    | some (.quarantine _) => rel = e.path ∧ (Goes disk w.cache "vfs" rel ∨ Goes disk w.cache "vfsMeta" rel)
    | none => False

/-- What a round can do. -/
inductive Round (w : World σ) (e : DirtyEntry) (w' : World σ) : Prop
  | clear (orphaned : e.isOrphaned = true) (cache : w'.cache = (clearOrphan disk w.cache e).1)
      (probe : w'.probe = w.probe) (records : w'.records = w.records ++ (clearOrphan disk w.cache e).2.toList)
  | repair (inconsistent : e.isInconsistent = true) (verdict : verdict lib (lookup w.probe e.path).1 e = some .repair)
      (record : Record) (cache : repairMetadata disk w.cache e = some (w'.cache, record))
      (probe : w'.probe = (lookup w.probe e.path).2) (records : w'.records = w.records ++ [record])
  | quarantine (inconsistent : e.isInconsistent = true) (reason : String)
      (verdict : verdict lib (lookup w.probe e.path).1 e = some (.quarantine reason))
      (cache : w'.cache = (quarantineEntry disk w.cache e reason).1) (probe : w'.probe = (lookup w.probe e.path).2)
      (records : w'.records = w.records ++ [(quarantineEntry disk w.cache e reason).2])
  | leave (consistent : e.isInconsistent = false) (same : w' = w)

variable {lib disk lookup}

theorem reconcileEntry_cases {w w' : World σ} {e : DirtyEntry} (h : reconcileEntry lib disk lookup w e = some w') :
    Round lib disk lookup w e w' := by
  unfold reconcileEntry at h
  split at h
  · rename_i ho
    cases h
    exact .clear ho rfl rfl rfl
  · split at h
    · rename_i hi
      obtain ⟨v, hv, h⟩ := Option.bind_eq_some_iff.mp h
      cases v with
      | repair =>
        obtain ⟨⟨c', record⟩, hrep, rfl⟩ := Option.map_eq_some_iff.mp h
        exact .repair hi hv record hrep rfl rfl
      | quarantine reason =>
        cases h
        exact .quarantine hi reason hv rfl rfl rfl
    · rename_i hi
      cases h
      exact .leave (by simpa using hi) rfl

theorem consistent_of_orphaned {e : DirtyEntry} (h : e.isOrphaned = true) : e.isInconsistent = false := by
  have hdata : e.hasData = false := by simpa [DirtyEntry.isOrphaned] using h
  simp [DirtyEntry.isInconsistent, hdata]

theorem step_torn {c₀ : Cache} {w w' : World σ} {e : DirtyEntry} (hk : Kept disk c₀ w.cache) (he : Scanned disk c₀ e)
    (h : (reconciler lib disk lookup).step w e = some w') :
    Kept disk c₀ w'.cache ∧
      ∀ rel, (torn w'.cache rel = true ↔ torn w.cache rel = true ∧ ¬Settles lib disk lookup w e rel) := by
  cases reconcileEntry_cases h with
  | clear ho hcache _ _ =>
    obtain ⟨hkept, htorn⟩ := clearOrphan_spec he ho hk
    rw [hcache]
    refine ⟨hkept, fun rel => ?_⟩
    rw [htorn, Settles, consistent_of_orphaned ho]
    simp
  | repair hi hv record hrep _ _ =>
    simpa only [Settles, hi, hv, true_and] using repairMetadata_spec he hi hk hrep
  | quarantine hi reason hv hcache _ _ =>
    rw [hcache]
    simpa only [Settles, hi, hv, true_and] using quarantineEntry_spec reason he hk
  | leave hi hw =>
    subst hw
    refine ⟨hk, fun rel => ?_⟩
    rw [Settles, hi]
    simp

/-- The entry's metadata says what its data file is, in full. -/
def RepairedAt (c : Cache) (rel : Path) : Prop :=
  ∃ m d, c.get? (metaPath rel) = some (.file m) ∧ c.get? (dataPath rel) = some (.file d) ∧ SaysAll m d.size

/-- What a reconcile is for: nothing is torn, and what was torn is repaired or gone from the
    live cache. -/
structure Reconciled (c c' : Cache) : Prop where
  none_torn : ∀ rel, torn c' rel = false
  settled : ∀ rel, torn c rel = true →
    RepairedAt c' rel ∨ c'.get? (metaPath rel) = none ∨ c'.get? (dataPath rel) = none

/-- What was torn is torn still, repaired, or gone. -/
theorem Kept.settled {c₀ c : Cache} (h : Kept disk c₀ c) {rel : Path} (h0 : torn c₀ rel = true)
    (h1 : torn c rel = false) : RepairedAt c rel ∨ c.get? (metaPath rel) = none ∨ c.get? (dataPath rel) = none := by
  rcases h.data rel with hd | hd
  · rcases h.meta rel with hm | hm | ⟨f, n, hm, hf, -, -, hstat⟩
    · rw [torn_congr hm hd, h0] at h1
      cases h1
    · exact Or.inr (Or.inl hm)
    · left
      unfold torn at h0
      split at h0
      · rename_i m d _ hd0
        have hn : d.size = n := by
          unfold statDataFile at hstat
          split at hstat
          · simp at hstat
          · simpa [hd0] using hstat
        exact ⟨f, d, hm, hd.trans hd0, hn ▸ hf⟩
      · cases h0
  · exact Or.inr (Or.inr hd)

theorem reconciled_iff {c : Cache} {probe : σ} {w' : World σ} (h : reconcileCache lib disk lookup c probe = some w') :
    Reconciled c w'.cache ↔
      ∀ rel, torn c rel = true → ∃ p ∈ rounds lib disk lookup c probe, Settles lib disk lookup p.1 p.2 rel := by
  obtain ⟨entries, hscan, hrun⟩ := Option.bind_eq_some_iff.mp h
  have hrounds : rounds lib disk lookup c probe = (reconciler lib disk lookup).trace ⟨c, probe, []⟩ (sorted entries) := by
    rw [rounds, hscan]
  have hall : ∀ e ∈ sorted entries, Scanned disk c e := fun e he => scanned_of_mem hscan he
  have hkept : Kept disk c w'.cache :=
    Machine.exec_inv (P := fun w => Kept disk c w.cache) (A := Scanned disk c)
      (fun _ _ _ hk he hstep => (step_torn hk he hstep).1) (Kept.refl disk c) hall hrun
  have htorn : ∀ rel, (torn w'.cache rel = true ↔
      torn c rel = true ∧ ∀ p ∈ rounds lib disk lookup c probe, ¬Settles lib disk lookup p.1 p.2 rel) := by
    intro rel
    rw [hrounds]
    exact Machine.exec_iff_trace (P := fun w => torn w.cache rel = true) (I := fun w => Kept disk c w.cache)
      (A := Scanned disk c) (fun s e s' hk he hstep => ⟨(step_torn hk he hstep).1, (step_torn hk he hstep).2 rel⟩)
      (Kept.refl disk c) hall hrun
  constructor
  · intro hdone rel hrel
    by_contra hnone
    push Not at hnone
    have := (htorn rel).mpr ⟨hrel, hnone⟩
    rw [hdone.none_torn rel] at this
    cases this
  · intro hsettled
    have hnone : ∀ rel, torn w'.cache rel = false := by
      intro rel
      rw [← Bool.not_eq_true, htorn rel]
      intro hboth
      rcases hboth with ⟨hrel, hnot⟩
      obtain ⟨p, hp, hs⟩ := hsettled rel hrel
      exact hnot p hp hs
    exact ⟨hnone, fun rel hrel => hkept.settled hrel (hnone rel)⟩

end

/-- A file system that refuses nothing. -/
def Disk.sound : Disk where
  lists := true
  opens := fun _ => true
  stats := fun _ => true
  removes := fun _ => true
  writes := fun _ => true
  makesDirs := fun _ => true
  moves := fun _ => .moved
  dirSize := fun _ => 4096

/-- Reads no time, and leaves texts as they are. -/
def Library.plain : Library := ⟨fun _ => .valueError, fun _ _ => .valueError, id⟩

def tornFile : CacheFile := ⟨44, some (.obj [("Dirty", .bool true), ("Size", .int 0), ("Rs", .null)])⟩

/-- One torn file, `gdrive/a`, that was never uploaded. -/
def newFile : Cache :=
  .ofNodes [(["vfs"], .dir), (["vfs", "gdrive"], .dir), (["vfs", "gdrive", "a"], .file ⟨56254, none⟩),
    (["vfsMeta"], .dir), (["vfsMeta", "gdrive"], .dir), (["vfsMeta", "gdrive", "a"], .file tornFile)] (by decide)

theorem a_new_file_is_repaired :
    ∃ w', reconcileCache .plain .sound (fun _ _ => (.absent, ())) newFile () = some w' ∧ Reconciled newFile w'.cache := by
  have hrun : (reconcileCache .plain .sound (fun _ _ => (.absent, ())) newFile ()).isSome = true := by decide
  obtain ⟨w', hw⟩ := Option.isSome_iff_exists.mp hrun
  refine ⟨w', hw, (reconciled_iff hw).mpr fun rel hrel => ?_⟩
  -- it is the only one
  have hpaths : newFile.paths = [["vfs"], ["vfs", "gdrive"], ["vfs", "gdrive", "a"], ["vfsMeta"], ["vfsMeta", "gdrive"],
      ["vfsMeta", "gdrive", "a"]] := by decide
  have hdata : dataPath rel ∈ newFile.paths := by
    refine FileTree.mem_paths.mpr fun hnone => ?_
    rw [torn_missing (Or.inr hnone)] at hrel
    cases hrel
  have hrel : rel = ["gdrive", "a"] := by
    rw [hpaths] at hdata
    simp only [dataPath, List.mem_cons, List.cons.injEq, true_and, List.not_mem_nil, or_false] at hdata
    rcases hdata with rfl | rfl | rfl | h | h | h
    · exact absurd hrel (by decide)
    · exact absurd hrel (by decide)
    · rfl
    · exact absurd h.1 (by decide)
    · exact absurd h.1 (by decide)
    · exact absurd h.1 (by decide)
  subst hrel
  exact ⟨_, List.mem_singleton.mpr rfl, by decide, Or.inl rfl⟩

/-- `gdrive/a` was a file when it was quarantined; it is a directory now. -/
def collision : Cache :=
  .ofNodes [(["vfs"], .dir), (["vfs", "gdrive"], .dir), (["vfs", "gdrive", "a"], .dir),
    (["vfs", "gdrive", "a", "b"], .file ⟨56254, none⟩),
    (["vfsMeta"], .dir), (["vfsMeta", "gdrive"], .dir), (["vfsMeta", "gdrive", "a"], .dir),
    (["vfsMeta", "gdrive", "a", "b"], .file tornFile),
    (["quarantine"], .dir),
    (["quarantine", "vfs"], .dir), (["quarantine", "vfs", "gdrive"], .dir),
    (["quarantine", "vfs", "gdrive", "a"], .file ⟨10, none⟩),
    (["quarantine", "vfsMeta"], .dir), (["quarantine", "vfsMeta", "gdrive"], .dir),
    (["quarantine", "vfsMeta", "gdrive", "a"], .file tornFile)] (by decide)

/-- A file in quarantine stands where a directory would have to be: the entry is reported as
    quarantined, and is where it was. -/
theorem a_torn_entry_is_left_in_place :
    ¬∀ (lib : Library) (disk : Disk) (lookup : Unit → Path → Status × Unit) (c : Cache) (w' : World Unit),
      reconcileCache lib disk lookup c () = some w' → Reconciled c w'.cache := by
  intro h
  have hrun : (reconcileCache .plain .sound (fun _ _ => (.error, ())) collision ()).isSome = true := by decide
  obtain ⟨w', hw⟩ := Option.isSome_iff_exists.mp hrun
  have htorn : (reconcileCache .plain .sound (fun _ _ => (.error, ())) collision ()).any
      (fun w => torn w.cache ["gdrive", "a", "b"]) = true := by decide
  rw [hw] at htorn
  have hnot := (h _ _ _ _ _ hw).none_torn ["gdrive", "a", "b"]
  rw [Option.any_some, hnot] at htorn
  cases htorn

end Errand.Gateway

import Errand.Gateway.Reconcile

/-
  Errand.Gateway.RemoteProbe — the probe of the reconcile (`RcloneRemoteProbe`;
  workspace-gateway/cache_reconcile.py). It lists the serve root once and does not know how
  many components of a cache path are the prefix of the file system's root: it takes the
  longest suffix of the first path that names an object, and keeps that depth.

  Proved:
  - `lookup_latch`: every entry of a run is judged at one depth, that of the first entry
    with a suffix that names an object (`latch`).
  - `repairs_supported_iff`: every repair is supported at the true depth exactly if each
    entry that is supported at the latched depth is. A name that happens to stand nearer
    the root misleads it (`a_newer_object_is_overwritten`).
  - `right_depth_supported`: where the latched depth is the true one every repair is.
-/

namespace Errand.Gateway

open Errand.Lib

abbrev Index := List (String × RemoteObject)

/-- `_load_index` of what `rclone lsjson` listed; the last object of a path counts. -/
def loadIndex (listing : List RemoteObject) : Index :=
  Dict.ofItems ((listing.filter fun item => item.path ≠ "").map fun item => (item.path, item))

structure RcloneRemoteProbe where
  /-- None if every attempt to list failed. -/
  index : Option Index
  prefixDepth : Option Nat

namespace RcloneRemoteProbe

/-- A probe that has latched nothing yet. -/
def ofListing (listing : Option (List RemoteObject)) : RcloneRemoteProbe := ⟨listing.map loadIndex, none⟩

end RcloneRemoteProbe

/-- The cache path without its first components. -/
def remotePath (depth : Nat) (cachePath : Path) : String := "/".intercalate (cachePath.drop depth)

/-- The first depth, from one on and leaving the file's name, at which there is an object. -/
def search (index : Index) (cachePath : Path) : Option (Nat × RemoteObject) :=
  (List.range' 1 (cachePath.length - 1)).findSome? fun start =>
    (Dict.get? index (remotePath start cachePath)).map fun item => (start, item)

namespace RcloneRemoteProbe

def lookup (probe : RcloneRemoteProbe) (cachePath : Path) : Status × RcloneRemoteProbe :=
  match probe.index with
  | none => (.error, probe)
  | some index =>
    match probe.prefixDepth with
    | some depth =>
      if depth ≥ cachePath.length then (.absent, probe)
      else
        match Dict.get? index (remotePath depth cachePath) with
        | some item => (.found item, probe)
        | none => (.absent, probe)
    | none =>
      match search index cachePath with
      | some (start, item) => (.found item, { probe with prefixDepth := some start })
      | none => (.absent, probe)

end RcloneRemoteProbe

/-! ## The depth that is latched -/

/-- The object behind a cache path, if `depth` of its components are the prefix. -/
def objectAt (index : Index) (depth : Nat) (cachePath : Path) : Option RemoteObject :=
  if depth < cachePath.length then Dict.get? index (remotePath depth cachePath) else none

/-- The first depth at which the first inconsistent entry with any has an object. -/
def latch (index : Index) (entries : List DirtyEntry) : Option Nat :=
  (entries.filter DirtyEntry.isInconsistent).findSome? fun e => (search index e.path).map Prod.fst

/-- The object that an entry is judged by, if the probe latches `depth`. -/
def judgedBy (index : Index) (depth : Option Nat) (cachePath : Path) : Option RemoteObject :=
  depth.bind fun depth => objectAt index depth cachePath

def statusOf : Option RemoteObject → Status
  | some item => .found item
  | none => .absent

theorem search_some {index : Index} {cachePath : Path} {depth : Nat} {item : RemoteObject}
    (h : search index cachePath = some (depth, item)) : objectAt index depth cachePath = some item := by
  obtain ⟨start, hmem, hstart⟩ := List.exists_of_findSome?_eq_some h
  obtain ⟨item', hget, e⟩ := Option.map_eq_some_iff.mp hstart
  cases e
  have hlt : depth < cachePath.length := by
    have := List.mem_range'_1.mp hmem
    omega
  rw [objectAt, if_pos hlt, hget]

theorem search_none {index : Index} {cachePath : Path} (h : search index cachePath = none) {depth : Nat}
    (hd : 1 ≤ depth) : objectAt index depth cachePath = none := by
  unfold objectAt
  split
  · rename_i hlt
    have hmem : depth ∈ List.range' 1 (cachePath.length - 1) := List.mem_range'_1.mpr ⟨hd, by omega⟩
    have hnone := List.findSome?_eq_none_iff.mp h depth hmem
    exact Option.map_eq_none_iff.mp hnone
  · rfl

theorem one_le_latch {index : Index} {entries : List DirtyEntry} {depth : Nat} (h : latch index entries = some depth) :
    1 ≤ depth := by
  obtain ⟨e, -, he⟩ := List.exists_of_findSome?_eq_some h
  obtain ⟨⟨d, item⟩, hsearch, hd⟩ := Option.map_eq_some_iff.mp he
  obtain ⟨start, hmem, hstart⟩ := List.exists_of_findSome?_eq_some hsearch
  obtain ⟨_, -, e'⟩ := Option.map_eq_some_iff.mp hstart
  cases e'
  cases hd
  exact (List.mem_range'_1.mp hmem).1

theorem latch_append (index : Index) (es fs : List DirtyEntry) :
    latch index (es ++ fs) = (latch index es).or (latch index fs) := by
  simp only [latch, List.filter_append, List.findSome?_append]

theorem latch_cons (index : Index) {e : DirtyEntry} (hi : e.isInconsistent = true) (es : List DirtyEntry) :
    latch index (e :: es) = ((search index e.path).map Prod.fst).or (latch index es) := by
  unfold latch
  rw [List.filter_cons_of_pos hi, List.findSome?_cons]
  cases search index e.path with
  | none => rfl
  | some found => rfl

theorem latch_skip (index : Index) {e : DirtyEntry} (hi : e.isInconsistent = false) (es : List DirtyEntry) :
    latch index (e :: es) = latch index es := by
  unfold latch
  rw [List.filter_cons_of_neg (by simp [hi])]

/-- An entry is judged at the depth that the whole run latches: those before it was latched
    have no object at any depth. -/
theorem lookup_latch (index : Index) (before : List DirtyEntry) {e : DirtyEntry} (hi : e.isInconsistent = true)
    (after : List DirtyEntry) :
    RcloneRemoteProbe.lookup ⟨some index, latch index before⟩ e.path =
      (statusOf (judgedBy index (latch index (before ++ e :: after)) e.path),
        ⟨some index, latch index (before ++ [e])⟩) := by
  rw [latch_append, latch_append, latch_cons index hi, latch_cons index hi]
  unfold RcloneRemoteProbe.lookup
  simp only
  cases hl : latch index before with
  | some depth =>
    simp only [Option.some_or, judgedBy, Option.bind_some, objectAt]
    by_cases hlt : depth < e.path.length
    · rw [if_neg (by omega), if_pos hlt]
      cases Dict.get? index (remotePath depth e.path) with
      | some item => rfl
      | none => rfl
    · rw [if_pos (by omega), if_neg hlt]
      rfl
  | none =>
    simp only [Option.none_or]
    cases hs : search index e.path with
    | some found =>
      simp only [Option.map_some, Option.some_or, judgedBy, Option.bind_some, search_some hs]
      rfl
    | none =>
      simp only [Option.map_none, Option.none_or]
      cases ha : latch index after with
      | none => rfl
      | some depth =>
        simp only [judgedBy, Option.bind_some, search_none hs (one_le_latch ha)]
        rfl

/-! ## Repairs -/

section

variable (lib : Library) (disk : Disk)

/-- The repair of an entry destroys nothing: its fingerprint is that of the object, or there
    is neither an object nor a fingerprint. -/
def Supports (e : DirtyEntry) : Option RemoteObject → Prop
  | some item => fingerprintMatches lib e.fingerprint item = some true
  | none => DirtyEntry.truthy e.fingerprint = false

theorem verdict_supports {e : DirtyEntry} {object : Option RemoteObject} :
    verdict lib (statusOf object) e = some .repair ↔ Supports lib e object := by
  rw [verdict_repair_iff]
  cases object with
  | some item => simp [statusOf, Supports]
  | none => simp [statusOf, Supports]

/-- The round adds a record of a repair. -/
def Repairs (w : World RcloneRemoteProbe) (e : DirtyEntry) : Prop :=
  ∃ w' metaSize dataSize, reconcileEntry lib disk RcloneRemoteProbe.lookup w e = some w' ∧
    w'.records = w.records ++ [.repaired e.path metaSize dataSize]

variable {lib disk}

theorem repairs_iff {w : World RcloneRemoteProbe} {e : DirtyEntry}
    (h : (reconcileEntry lib disk RcloneRemoteProbe.lookup w e).isSome = true) :
    Repairs lib disk w e ↔
      e.isInconsistent = true ∧ verdict lib (RcloneRemoteProbe.lookup w.probe e.path).1 e = some .repair := by
  obtain ⟨w', hw⟩ := Option.isSome_iff_exists.mp h
  constructor
  · intro hstep
    rcases hstep with ⟨w'', metaSize, dataSize, hw'', hrecords⟩
    rw [hw] at hw''
    cases hw''
    cases reconcileEntry_cases hw with
    | clear _ _ _ hr =>
      rw [hrecords] at hr
      have hr := List.append_cancel_left hr
      simp only [clearOrphan] at hr
      split at hr
      · cases hr
      · cases hr
    | repair hi hv _ _ _ _ => exact ⟨hi, hv⟩
    | quarantine _ _ _ _ _ hr =>
      rw [hrecords] at hr
      have hr := List.append_cancel_left hr
      cases hr
    | leave _ hsame =>
      rw [hsame] at hrecords
      have hr := congrArg List.length hrecords
      rw [List.length_append, List.length_singleton] at hr
      omega
  · intro hprobe
    rcases hprobe with ⟨hi, hv⟩
    cases reconcileEntry_cases hw with
    | clear ho _ _ _ =>
      rw [consistent_of_orphaned ho] at hi
      cases hi
    | repair _ _ record hrep _ hr =>
      refine ⟨w', e.meta.get? "Size", e.dataSize, hw, ?_⟩
      rw [hr]
      unfold repairMetadata at hrep
      split at hrep
      · cases hrep
      · obtain ⟨_, _, hrep⟩ := Option.bind_eq_some_iff.mp hrep
        obtain ⟨_, _, hrep⟩ := Option.bind_eq_some_iff.mp hrep
        obtain ⟨_, _, hrep⟩ := Option.map_eq_some_iff.mp hrep
        cases hrep
        rfl
    | quarantine _ reason hv' _ _ _ =>
      rw [hv] at hv'
      cases hv'
    | leave hc _ =>
      rw [hi] at hc
      cases hc

theorem step_latch {index : Index} {before : List DirtyEntry} {w w' : World RcloneRemoteProbe} {e : DirtyEntry}
    (hp : w.probe = ⟨some index, latch index before⟩)
    (h : (reconciler lib disk RcloneRemoteProbe.lookup).step w e = some w') :
    w'.probe = ⟨some index, latch index (before ++ [e])⟩ := by
  have hsame : e.isInconsistent = false → latch index (before ++ [e]) = latch index before := by
    intro hc
    rw [latch_append, latch_skip index hc]
    exact Option.or_none
  have hmoved : e.isInconsistent = true →
      (RcloneRemoteProbe.lookup w.probe e.path).2 = ⟨some index, latch index (before ++ [e])⟩ := by
    intro hi
    rw [hp, lookup_latch index before hi []]
  cases reconcileEntry_cases h with
  | clear ho _ hprobe _ => rw [hprobe, hp, hsame (consistent_of_orphaned ho)]
  | repair hi _ _ _ hprobe _ => rw [hprobe, hmoved hi]
  | quarantine hi _ _ _ hprobe _ => rw [hprobe, hmoved hi]
  | leave hc hw => rw [hw, hp, hsame hc]

theorem trace_judged {index : Index} {es : List DirtyEntry} : ∀ (before : List DirtyEntry) {w : World RcloneRemoteProbe},
    w.probe = ⟨some index, latch index before⟩ →
    ∀ w' e, (w', e) ∈ (reconciler lib disk RcloneRemoteProbe.lookup).trace w es → e.isInconsistent = true →
      (RcloneRemoteProbe.lookup w'.probe e.path).1 = statusOf (judgedBy index (latch index
        (before ++ ((reconciler lib disk RcloneRemoteProbe.lookup).trace w es).map Prod.snd)) e.path) := by
  induction es with
  | nil =>
    intro before w _ w' e h
    cases h
  | cons f es ih =>
    intro before w hp w' e h hi
    cases ht : (reconciler lib disk RcloneRemoteProbe.lookup).step w f with
    | none =>
      rw [Machine.trace, ht] at h
      cases h
    | some t =>
      rw [Machine.trace_cons _ ht] at h ⊢
      rcases List.mem_cons.mp h with h | h
      · cases h
        rw [hp, List.map_cons, lookup_latch index before hi]
      · rw [List.map_cons, List.append_cons]
        exact ih _ (step_latch hp ht) w' e h hi

/-- What the serve root holds; nothing is known of it where it could not be listed. -/
def objects (listing : Option (List RemoteObject)) : Index := (listing.map loadIndex).getD []

/-- A repair that the latched depth supports, the true one supports too. -/
def JudgedRight (lib : Library) (index : Index) (latched : Option Nat) (depth : Nat) (e : DirtyEntry) : Prop :=
  Supports lib e (judgedBy index latched e.path) → Supports lib e (objectAt index depth e.path)

theorem rounds_step {c : Cache} {probe : RcloneRemoteProbe} {w : World RcloneRemoteProbe} {e : DirtyEntry}
    (h : (w, e) ∈ rounds lib disk RcloneRemoteProbe.lookup c probe) :
    (reconcileEntry lib disk RcloneRemoteProbe.lookup w e).isSome = true := by
  unfold rounds at h
  split at h
  · exact Machine.trace_step _ h
  · cases h

theorem unlisted_repairs_nothing {c : Cache} {w : World RcloneRemoteProbe} {e : DirtyEntry}
    (h : (w, e) ∈ rounds lib disk RcloneRemoteProbe.lookup c (.ofListing none)) : ¬Repairs lib disk w e := by
  rw [repairs_iff (rounds_step h)]
  unfold rounds at h
  split at h
  · have hprobe : w.probe = ⟨none, none⟩ := by
      refine Machine.trace_inv (P := fun w => w.probe = ⟨none, none⟩) ?_ rfl h
      intro s f s' hs hstep
      cases reconcileEntry_cases hstep with
      | clear _ _ hprobe _ => rw [hprobe, hs]
      | repair _ _ _ _ hprobe _ => rw [hprobe, hs]; rfl
      | quarantine _ _ _ _ hprobe _ => rw [hprobe, hs]; rfl
      | leave _ hw => rw [hw, hs]
    rw [hprobe]
    intro hprobe
    rcases hprobe with ⟨-, hv⟩
    cases hv
  · cases h

/-- Whatever the prefix depth is: every repair is supported by what stands at the entry's own
    remote path exactly if no entry the run gets to is misjudged at the depth it latches. -/
theorem repairs_supported_iff {c : Cache} {listing : Option (List RemoteObject)} {depth : Nat} :
    (∀ w e, (w, e) ∈ rounds lib disk RcloneRemoteProbe.lookup c (.ofListing listing) → Repairs lib disk w e →
        Supports lib e (objectAt (objects listing) depth e.path)) ↔
      ∀ index, listing.map loadIndex = some index →
        ∀ e ∈ (rounds lib disk RcloneRemoteProbe.lookup c (.ofListing listing)).map Prod.snd, e.isInconsistent = true →
          JudgedRight lib index
            (latch index ((rounds lib disk RcloneRemoteProbe.lookup c (.ofListing listing)).map Prod.snd)) depth e := by
  cases listing with
  | none =>
    constructor
    · intro _ index hindex
      cases hindex
    · intro _ w e h hr
      exact absurd hr (unlisted_repairs_nothing h)
  | some items =>
    -- a round repairs exactly what the latched depth supports
    have hrepairs : ∀ w e, (w, e) ∈ rounds lib disk RcloneRemoteProbe.lookup c (.ofListing (some items)) →
        (Repairs lib disk w e ↔ e.isInconsistent = true ∧ Supports lib e (judgedBy (loadIndex items)
          (latch (loadIndex items)
            ((rounds lib disk RcloneRemoteProbe.lookup c (.ofListing (some items))).map Prod.snd)) e.path)) := by
      intro w e h
      rw [repairs_iff (rounds_step h)]
      refine and_congr_right fun hi => ?_
      unfold rounds at h ⊢
      split at h
      · rw [trace_judged [] rfl w e h hi, verdict_supports]
        rfl
      · cases h
    simp only [Option.map_some, Option.some.injEq, forall_eq', objects, Option.getD_some]
    constructor
    · intro h e he hi hs
      obtain ⟨⟨w, e'⟩, hmem, rfl⟩ := List.mem_map.mp he
      exact h w e' hmem ((hrepairs w e' hmem).mpr ⟨hi, hs⟩)
    · intro h w e hmem hr
      obtain ⟨hi, hs⟩ := (hrepairs w e hmem).mp hr
      exact h e (List.mem_map_of_mem hmem) hi hs

/-- A probe that latches the true depth, or that finds no object for any entry, misleads no
    repair. -/
theorem right_depth_supported {index : Index} {entries : List DirtyEntry} {depth : Nat} (hd : 1 ≤ depth)
    (h : latch index entries = some depth ∨ latch index entries = none) {e : DirtyEntry} (he : e ∈ entries)
    (hi : e.isInconsistent = true) : JudgedRight lib index (latch index entries) depth e := by
  rcases h with h | h
  · rw [h]
    exact id
  · have hnone : search index e.path = none := by
      have hmem : e ∈ entries.filter DirtyEntry.isInconsistent := List.mem_filter.mpr ⟨he, hi⟩
      exact Option.map_eq_none_iff.mp (List.findSome?_eq_none_iff.mp h e hmem)
    rw [JudgedRight, h, search_none hnone hd]
    exact id

end

/-- Two new files of a workspace at `gdrive/Errand`. -/
def twoFiles : Cache :=
  .ofNodes [(["vfs"], .dir), (["vfs", "gdrive"], .dir), (["vfs", "gdrive", "Errand"], .dir),
    (["vfs", "gdrive", "Errand", "a.md"], .file ⟨10, none⟩), (["vfs", "gdrive", "Errand", "b.md"], .file ⟨20, none⟩),
    (["vfsMeta"], .dir), (["vfsMeta", "gdrive"], .dir), (["vfsMeta", "gdrive", "Errand"], .dir),
    (["vfsMeta", "gdrive", "Errand", "a.md"], .file tornFile),
    (["vfsMeta", "gdrive", "Errand", "b.md"], .file tornFile)] (by decide)

/-- What somebody else put there meanwhile; the directory's name occurs once more in it. -/
def newer : List RemoteObject := [⟨"Errand/a.md", 5, none, []⟩, ⟨"b.md", 7, none, []⟩]

/-- `Errand/a.md` is taken for the object of the first file, so the prefix for one component
    too short, and the second file for new: it is uploaded over `b.md`. -/
theorem a_newer_object_is_overwritten :
    ¬∀ (lib : Library) (disk : Disk) (c : Cache) (listing : Option (List RemoteObject)) (pre : Path),
      (∀ entries, iterDirtyEntries disk c = some entries → ∀ e ∈ entries, pre <+: e.path) →
      ∀ w e, (w, e) ∈ rounds lib disk RcloneRemoteProbe.lookup c (.ofListing listing) → Repairs lib disk w e →
        Supports lib e (objectAt (objects listing) pre.length e.path) := by
  intro h
  have hpre : ∀ entries, iterDirtyEntries .sound twoFiles = some entries →
      ∀ e ∈ entries, ["gdrive", "Errand"] <+: e.path := by
    intro entries he
    have hall : (iterDirtyEntries .sound twoFiles).all fun entries =>
        entries.all fun e => decide (["gdrive", "Errand"] <+: e.path) := by decide
    rw [he] at hall
    simpa using hall
  have hany : (rounds .plain .sound RcloneRemoteProbe.lookup twoFiles (.ofListing (some newer))).any fun p =>
      p.2.path == ["gdrive", "Errand", "b.md"] && p.2.isInconsistent && p.2.fingerprint.isNone &&
        decide (verdict .plain (RcloneRemoteProbe.lookup p.1.probe p.2.path).1 p.2 = some .repair) := by decide
  obtain ⟨⟨w, e⟩, hmem, he⟩ := List.any_eq_true.mp hany
  simp only [Bool.and_eq_true, beq_iff_eq, Option.isNone_iff_eq_none, decide_eq_true_eq] at he
  obtain ⟨⟨⟨hpath, hi⟩, hfp⟩, hv⟩ := he
  have hs := h .plain .sound twoFiles (some newer) ["gdrive", "Errand"] hpre w e hmem
    ((repairs_iff (rounds_step hmem)).mpr ⟨hi, hv⟩)
  have hobject : objectAt (objects (some newer)) 2 ["gdrive", "Errand", "b.md"] = some ⟨"b.md", 7, none, []⟩ := by decide
  have hlength : (["gdrive", "Errand"] : Path).length = 2 := rfl
  rw [hpath, hlength, hobject, Supports, hfp] at hs
  cases hs

end Errand.Gateway

import Errand.Gateway.QuarantineMoves
import Errand.Lib.JsonRoundTrip

/-
  Errand.Gateway.ReconcileFrame — what a reconcile leaves alone, and what a second one right
  after it does (`iter_dirty_entries`, `repair_metadata`, `quarantine_entry`, `_clear_orphan`,
  `reconcile_cache`; workspace-gateway/cache_reconcile.py), for any content of files.

  Every call the file system refuses is taken from `Io`, those of the moves to quarantine
  from `Errand.Gateway.QuarantineMoves`. An error that ends the reconcile leaves the cache as
  it is by then. The entries are scanned before the first is acted on. The manifest of the
  quarantine is left out.

  A repair writes beside the metadata, at a name that may be another entry's: with
  `a.txt.repair.tmp` in the cache, the repair of `a.txt` takes away its metadata.

  Proved:
  - `unchanged_iff`: the sound entries keep their metadata and their data exactly if no
    repair that has the metadata of one for its temporary file comes so far as to change it.
  - `survives`: what a data file holds stays, if no move to quarantine writes over a file.
  - `second_idle`: after a reconcile that was refused nothing a second one finds nothing to
    do, unless a verdict raised.
  - `reconcile_frame`: the three together; `a_repair_takes_metadata` is a cache where the
    first of them fails.
-/

namespace Errand.Gateway.ReconcileFrame

open Errand.Lib Errand.Gateway.QuarantineMoves

/-- What files hold: bytes, of which some are JSON. -/
structure Contents (α : Type) where
  size : α → Nat
  json : α → Option Json
  dump : Json → α
  json_dump : ∀ j, json (dump j) = some j

/-- What the file system makes of the calls of the scan. -/
structure Scan where
  /-- Every directory below the metadata. -/
  lists : Bool
  opens : Path → Bool
  stats : Path → Bool
  /-- `st_size` of a directory. -/
  dirSize : Path → Nat

/-- How a repair ends: `open` of the temporary file, `json.dump`, `os.replace`. -/
inductive RepairEnd (α : Type) where
  | unopened
  | partly (written : α)
  | unreplaced
  | replaced

/-- What the file system makes of the calls of a reconcile. -/
structure Io (α : Type) where
  scan : Scan
  removes : Path → Bool
  repairs : Path → RepairEnd α
  data : Path → Calls α
  «meta» : Path → Calls α

section Model

variable {α σ : Type} (contents : Contents α) (io : Io α) (lib : Library) (lookup : σ → Path → Status × σ)

/-! ## The scan -/

/-- A file stands on the way to the path. -/
def blocked (t : FileTree α) (p : Path) : Bool :=
  (FileTree.above p).any fun a => match t.get? a with
    | some (.file _) => true
    | _ => false

def statDataFile (scan : Scan) (t : FileTree α) (p : Path) : Bool × Option Nat :=
  if !scan.stats p then (true, none)
  else
    match t.get? p with
    | some (.file x) => (true, some (contents.size x))
    | some .dir => (true, some (scan.dirSize p))
    | none => if blocked t p then (true, none) else (false, none)

def readEntry (scan : Scan) (t : FileTree α) (rel : Path) : Option DirtyEntry :=
  match t.get? (metaPath rel) with
  | some (.file x) =>
    if scan.opens (metaPath rel) then
      ((contents.json x).filter isDirty).map fun «meta» =>
        let (present, size) := statDataFile contents scan t (dataPath rel)
        { path := rel, «meta» := «meta», hasData := present, dataSize := size }
    else none
  | _ => none

/-- The paths below the metadata's root, relative to it. -/
def metaFiles (t : FileTree α) : List Path :=
  t.paths.filterMap fun
    | "vfsMeta" :: rel => some rel
    | _ => none

/-- None if a directory cannot be listed. -/
def iterDirtyEntries (scan : Scan) (t : FileTree α) : Option (List DirtyEntry) :=
  if !scan.lists then none
  else
    match t.get? ["vfsMeta"] with
    | none => some []
    | some (.file _) => none
    | some .dir => some ((metaFiles t).filterMap (readEntry contents scan t))

/-! ## Repair and orphans -/

/-- `repair_metadata`, and whether it returned. -/
def repairMetadata (t : FileTree α) (e : DirtyEntry) : FileTree α × Bool :=
  let tmp := repairTmp e.path
  let content := contents.dump (repairedMeta e)
  match io.repairs e.path with
  | .unopened => (t, false)
  | .partly written => ((t.put tmp written).getD t, false)
  | .unreplaced => ((t.put tmp content).getD t, false)
  | .replaced =>
    match t.put tmp content with
    | none => (t, false)
    | some t =>
      match (t.remove tmp).bind fun t => t.put (metaPath e.path) content with
      | some t => (t, true)
      | none => (t, false)

def removeFile (t : FileTree α) (p : Path) : FileTree α × RemoveEnd :=
  if t.get? p = none then (t, .absent)
  else if !io.removes p then (t, .failed)
  else
    match t.remove p with
    | some t => (t, .removed)
    | none => (t, .failed)

/-- A move fails with an `OSError` that is no `FileNotFoundError`. -/
def moveFails (calls : Calls α) (t : FileTree α) (subdir : String) (rel : Path) : Bool :=
  (QuarantineMoves.quarantineDestination calls t subdir rel).isNone ||
    (t.get? (subdir :: rel)).isSome && !(moveOne calls t subdir rel).2

/-! ## The run -/

inductive Action where
  | cleared
  | repaired
  | quarantined (reason : String)
  deriving DecidableEq

structure World (σ α : Type) where
  cache : FileTree α
  probe : σ
  /-- The records, here by their entry and action. -/
  records : List (Path × Action)
  /-- An `OSError` was logged or raised. -/
  failed : Bool
  raised : Bool

/-- What the loop of `reconcile_cache` does with an entry. -/
inductive Act where
  | leave
  | raise
  | clear
  | repair
  | quarantine (reason : String)

def act (w : World σ α) (e : DirtyEntry) : Act × σ :=
  if w.raised then (.leave, w.probe)
  else if e.isOrphaned then (.clear, w.probe)
  else if e.isInconsistent then
    let answer := lookup w.probe e.path
    match verdict lib answer.1 e with
    | none => (.raise, answer.2)
    | some .repair => (.repair, answer.2)
    | some (.quarantine reason) => (.quarantine reason, answer.2)
  else (.leave, w.probe)

def perform (w : World σ α) (e : DirtyEntry) : Act → World σ α
  | .leave => w
  | .raise => { w with raised := true }
  | .clear =>
    let data := removeFile io w.cache (dataPath e.path)
    let rest := removeFile io data.1 (metaPath e.path)
    { w with
      cache := rest.1
      records := if rest.2 = .failed then w.records else w.records ++ [(e.path, .cleared)]
      failed := w.failed || decide (data.2 = .failed) || decide (rest.2 = .failed) }
  | .repair =>
    let repaired := repairMetadata contents io w.cache e
    { w with
      cache := repaired.1
      records := if repaired.2 then w.records ++ [(e.path, .repaired)] else w.records
      failed := w.failed || !repaired.2
      raised := !repaired.2 }
  | .quarantine reason =>
    let data := moveOne (io.data e.path) w.cache "vfs" e.path
    let rest := moveOne (io.meta e.path) data.1 "vfsMeta" e.path
    { w with
      cache := rest.1
      records := w.records ++ [(e.path, .quarantined reason)]
      failed := w.failed || moveFails (io.data e.path) w.cache "vfs" e.path ||
        moveFails (io.meta e.path) data.1 "vfsMeta" e.path }

def step (w : World σ α) (e : DirtyEntry) : World σ α :=
  let (a, probe) := act lib lookup w e
  perform contents io { w with probe := probe } e a

def run (w : World σ α) (entries : List DirtyEntry) : World σ α := entries.foldl (step contents io lib lookup) w

/-- `reconcile_cache`. -/
def reconcileCache (t : FileTree α) (probe : σ) : World σ α :=
  match iterDirtyEntries contents io.scan t with
  | none => ⟨t, probe, [], true, true⟩
  | some entries => run contents io lib lookup ⟨t, probe, [], false, false⟩ (sorted entries)

/-- The entries a run gets to, each with the state it finds. -/
def roundsOf (w : World σ α) : List DirtyEntry → List (World σ α × DirtyEntry)
  | [] => []
  | e :: entries => (w, e) :: roundsOf (step contents io lib lookup w e) entries

def rounds (t : FileTree α) (probe : σ) : List (World σ α × DirtyEntry) :=
  match iterDirtyEntries contents io.scan t with
  | none => []
  | some entries => roundsOf contents io lib lookup ⟨t, probe, [], false, false⟩ (sorted entries)

end Model

/-! ## What is scanned -/

/-- One of the two faults a reconcile acts on. -/
def Faulted (e : DirtyEntry) : Prop := e.isOrphaned = true ∨ e.isInconsistent = true

/-- A scan that is refused nothing. -/
def Scan.open (scan : Scan) : Scan := { scan with lists := true, opens := fun _ => true, stats := fun _ => true }

section Scanned

variable {α : Type} {contents : Contents α} {scan : Scan} {t u : FileTree α} {rel : Path} {e : DirtyEntry}

theorem readEntry_spec (h : readEntry contents scan t rel = some e) :
    e.path = rel ∧ isDirty e.meta = true ∧
      (∃ x, t.get? (metaPath rel) = some (.file x) ∧ contents.json x = some e.meta) ∧
      scan.opens (metaPath rel) = true ∧ statDataFile contents scan t (dataPath rel) = (e.hasData, e.dataSize) := by
  unfold readEntry at h
  split at h
  · rename_i x hx
    split at h
    · rename_i hopens
      obtain ⟨j, hj, he⟩ := Option.map_eq_some_iff.mp h
      obtain ⟨hjson, hdirty⟩ := Option.filter_eq_some_iff.mp hj
      rw [← he]
      exact ⟨rfl, hdirty, ⟨x, hx, hjson⟩, hopens, rfl⟩
    · cases h
  · cases h

theorem readEntry_of {x : α} {j : Json} (hx : t.get? (metaPath rel) = some (.file x)) (hj : contents.json x = some j)
    (hdirty : isDirty j = true) (hopens : scan.opens (metaPath rel) = true) :
    readEntry contents scan t rel =
      some ⟨rel, j, (statDataFile contents scan t (dataPath rel)).1,
        (statDataFile contents scan t (dataPath rel)).2⟩ := by
  unfold readEntry
  rw [hx]
  dsimp only
  rw [if_pos hopens, hj, Option.filter_some, if_pos hdirty]
  rfl

/-- A refused stat makes no fault. -/
theorem stat_of_faulted (h : readEntry contents scan t rel = some e) (hf : Faulted e) :
    scan.stats (dataPath rel) = true := by
  obtain ⟨-, -, -, -, hstat⟩ := readEntry_spec h
  by_contra hno
  unfold statDataFile at hstat
  rw [if_pos (by simpa using hno)] at hstat
  obtain ⟨hdata, hsize⟩ := Prod.mk.inj hstat
  rcases hf with ho | hi
  · simp [DirtyEntry.isOrphaned, ← hdata] at ho
  · simp [DirtyEntry.isInconsistent, ← hsize] at hi

/-- What a scan sees as faulted is. -/
theorem open_of_faulted (h : readEntry contents scan t rel = some e) (hf : Faulted e) :
    readEntry contents scan.open t rel = some e := by
  have hstats := stat_of_faulted h hf
  obtain ⟨rfl, hdirty, ⟨x, hx, hjson⟩, -, hstat⟩ := readEntry_spec h
  have hsame : statDataFile contents scan.open t (dataPath e.path) =
      statDataFile contents scan t (dataPath e.path) := by
    unfold statDataFile
    rw [hstats]
    rfl
  rw [readEntry_of hx hjson hdirty rfl, hsame, hstat]

/-- The entries of a scan. -/
theorem mem_entries {entries : List DirtyEntry} (h : iterDirtyEntries contents scan t = some entries) :
    e ∈ sorted entries ↔ e.path ≠ [] ∧ readEntry contents scan t e.path = some e := by
  unfold iterDirtyEntries at h
  have hbelow : ∀ rel, rel ≠ [] → t.get? ["vfsMeta"] ≠ some .dir → t.get? (metaPath rel) = none := by
    intro rel hrel hdir
    exact FileTree.get?_below (p := ["vfsMeta"]) (by simp) hrel hdir
  split at h
  · cases h
  · split at h
    · rename_i hnone
      cases h
      refine iff_of_false (fun he => List.not_mem_nil (mem_sorted.mp he)) ?_
      rintro ⟨hne, hread⟩
      obtain ⟨-, -, ⟨x, hx, -⟩, -⟩ := readEntry_spec hread
      rw [hbelow _ hne (by rw [hnone]; nofun)] at hx
      cases hx
    · cases h
    · rename_i hdir
      obtain rfl := Option.some.inj h
      rw [mem_sorted, List.mem_filterMap]
      constructor
      · rintro ⟨rel, -, hread⟩
        obtain ⟨hpath, -, ⟨x, hx, -⟩, -⟩ := readEntry_spec hread
        subst hpath
        refine ⟨fun hnil => ?_, hread⟩
        rw [hnil] at hx
        unfold metaPath at hx
        rw [hdir] at hx
        cases hx
      · rintro ⟨-, hread⟩
        obtain ⟨-, -, ⟨x, hx, -⟩, -⟩ := readEntry_spec hread
        refine ⟨e.path, List.mem_filterMap.mpr ⟨metaPath e.path, ?_, rfl⟩, hread⟩
        rw [FileTree.mem_paths, hx]
        nofun

theorem entries_nodup {entries : List DirtyEntry} (h : iterDirtyEntries contents scan t = some entries) :
    ((sorted entries).map DirtyEntry.path).Nodup := by
  have hperm : List.Perm ((sorted entries).map DirtyEntry.path) (entries.map DirtyEntry.path) :=
    (List.perm_insertionSort _ entries).map _
  rw [hperm.nodup_iff]
  unfold iterDirtyEntries at h
  split at h
  · cases h
  · split at h
    · cases h
      exact List.nodup_nil
    · cases h
    · obtain rfl := Option.some.inj h
      have hfiles : (metaFiles t).Nodup := by
        refine List.Nodup.filterMap ?_ (List.nodup_dedup _)
        rintro a b rel ha hb
        have hmeta : ∀ p : Path, rel ∈ (match p with | "vfsMeta" :: rel => some rel | _ => none) →
            p = "vfsMeta" :: rel := by
          intro p hp
          split at hp
          · rw [Option.mem_some_iff.mp hp]
          · cases hp
        rw [hmeta a ha, hmeta b hb]
      rw [List.map_filterMap]
      refine List.Nodup.filterMap ?_ hfiles
      intro a b rel ha hb
      obtain ⟨ea, hea, rfl⟩ := Option.map_eq_some_iff.mp ha
      obtain ⟨eb, heb, hpath⟩ := Option.map_eq_some_iff.mp hb
      rw [← (readEntry_spec hea).1, ← (readEntry_spec heb).1, hpath]

end Scanned

/-! ## What a round changes -/

/-- In the cache, not in the quarantine. -/
def Live (k : Path) : Prop := k.head? = some "vfs" ∨ k.head? = some "vfsMeta"

theorem withSuffix_ne {p : Path} (hp : p ≠ []) : withSuffix p ".repair.tmp" ≠ p := by
  obtain ⟨q, x, rfl⟩ := (List.eq_nil_or_concat p).resolve_left hp
  rw [List.concat_eq_append, withSuffix_concat]
  intro h
  have hname := congrArg String.toList (List.cons.inj (List.append_cancel_left h)).1
  rw [String.toList_append] at hname
  exact absurd (List.append_right_eq_self.mp hname) (by decide)

theorem withSuffix_injective {p q : Path} (hp : p ≠ []) (hq : q ≠ [])
    (h : withSuffix p ".repair.tmp" = withSuffix q ".repair.tmp") : p = q := by
  obtain ⟨p, x, rfl⟩ := (List.eq_nil_or_concat p).resolve_left hp
  obtain ⟨q, y, rfl⟩ := (List.eq_nil_or_concat q).resolve_left hq
  simp only [List.concat_eq_append, withSuffix_concat] at h ⊢
  obtain ⟨hdir, hname⟩ := List.append_inj' h rfl
  have hname := congrArg String.toList (List.cons.inj hname).1
  rw [String.toList_append, String.toList_append] at hname
  rw [hdir, String.toList_inj.mp (List.append_cancel_right hname)]

/-- The temporary file stands beside the metadata. -/
theorem above_repairTmp (rel : Path) : FileTree.above (repairTmp rel) = FileTree.above (metaPath rel) := by
  obtain ⟨p, x, hp⟩ := (List.eq_nil_or_concat (metaPath rel)).resolve_left (by simp [metaPath])
  unfold repairTmp FileTree.above
  rw [hp, List.concat_eq_append, withSuffix_concat, List.dropLast_concat, List.dropLast_concat]

/-- A repair leaves the file at its temporary name as it is. -/
def Spares {α : Type} (contents : Contents α) (e : DirtyEntry) (x : α) : RepairEnd α → Prop
  | .unopened => True
  | .partly written => written = x
  | .unreplaced => contents.dump (repairedMeta e) = x
  | .replaced => False

section Rounds

variable {α σ : Type} {contents : Contents α} {io : Io α} {lib : Library} {lookup : σ → Path → Status × σ}
variable {t u : FileTree α} {e : DirtyEntry} {w : World σ α} {k : Path}

theorem put_getD (p : Path) (x : α) : ((t.put p x).getD t).get? k = t.get? k ∨
    k = p ∧ ((t.put p x).getD t).get? k = some (.file x) := by
  cases h : t.put p x with
  | none => exact .inl rfl
  | some u =>
    rw [Option.getD_some, FileTree.get?_put h]
    by_cases hk : p = k
    · exact .inr ⟨hk.symm, if_pos hk⟩
    · exact .inl (if_neg hk)

/-- What a repair leaves. -/
structure Repaired (contents : Contents α) (t u : FileTree α) (e : DirtyEntry) (returned : Bool) : Prop where
  other : ∀ k, k ≠ metaPath e.path → k ≠ repairTmp e.path → u.get? k = t.get? k
  dirs : ∀ k, u.get? k = some .dir → t.get? k = some .dir
  done : returned = true → u.get? (repairTmp e.path) = none ∧
    u.get? (metaPath e.path) = some (.file (contents.dump (repairedMeta e)))

theorem repaired_of_put (contents : Contents α) (t : FileTree α) (e : DirtyEntry) (x : α) :
    Repaired contents t ((t.put (repairTmp e.path) x).getD t) e false := by
  refine ⟨fun k _ hk => ?_, fun k hdir => ?_, nofun⟩
  · exact (put_getD _ _).resolve_right fun h => hk h.1
  · rcases put_getD (t := t) (k := k) (repairTmp e.path) x with h | ⟨-, h⟩
    · rwa [h] at hdir
    · rw [h] at hdir
      cases hdir

theorem repairMetadata_spec (contents : Contents α) (io : Io α) (t : FileTree α) (e : DirtyEntry) :
    Repaired contents t (repairMetadata contents io t e).1 e (repairMetadata contents io t e).2 := by
  have hself : Repaired contents t t e false := ⟨fun _ _ _ => rfl, fun _ h => h, nofun⟩
  have htmp : metaPath e.path ≠ repairTmp e.path := (withSuffix_ne (by simp [metaPath])).symm
  unfold repairMetadata
  dsimp only
  cases io.repairs e.path with
  | unopened => exact hself
  | partly written => exact repaired_of_put contents t e written
  | unreplaced => exact repaired_of_put contents t e _
  | replaced =>
    dsimp only
    have hput := repaired_of_put contents t e (contents.dump (repairedMeta e))
    cases h₁ : t.put (repairTmp e.path) (contents.dump (repairedMeta e)) with
    | none => exact hself
    | some t₁ =>
      rw [h₁, Option.getD_some] at hput
      dsimp only
      cases h₃ : (t₁.remove (repairTmp e.path)).bind fun t =>
          t.put (metaPath e.path) (contents.dump (repairedMeta e)) with
      | none => exact hput
      | some t₃ =>
        obtain ⟨t₂, h₂, h₃⟩ := Option.bind_eq_some_iff.mp h₃
        have hget : ∀ k, t₃.get? k = if metaPath e.path = k then some (.file (contents.dump (repairedMeta e)))
            else if repairTmp e.path = k then none else t₁.get? k := by
          intro k
          rw [FileTree.get?_put h₃, FileTree.get?_remove h₂]
        refine ⟨fun k hk hne => ?_, fun k hdir => ?_, fun _ => ⟨?_, ?_⟩⟩
        · rw [hget, if_neg (Ne.symm hk), if_neg (Ne.symm hne)]
          exact hput.other k hk hne
        · rw [hget] at hdir
          split at hdir
          · cases hdir
          · split at hdir
            · cases hdir
            · exact hput.dirs k hdir
        · rw [hget, if_neg htmp, if_pos rfl]
        · rw [hget, if_pos rfl]

/-- With a file at the temporary name, and none of the two a directory. -/
theorem repairMetadata_tmp {x : α} (io : Io α) (hx : t.get? (repairTmp e.path) = some (.file x))
    (hmeta : t.get? (metaPath e.path) ≠ some .dir) :
    (repairMetadata contents io t e).1.get? (repairTmp e.path) = some (.file x) ↔
      Spares contents e x (io.repairs e.path) := by
  have hstands : t.Stands (repairTmp e.path) := by
    refine ⟨fun hnil => ?_, fun a ha => ?_⟩
    · obtain ⟨p, y, hp⟩ := (List.eq_nil_or_concat (metaPath e.path)).resolve_left (by simp [metaPath])
      rw [repairTmp, hp, List.concat_eq_append, withSuffix_concat] at hnil
      exact absurd hnil (by simp)
    obtain ⟨ha, b, hb, hpath⟩ := FileTree.mem_above.mp ha
    refine t.closed a b ha hb ?_
    have hthere : t.get? (a ++ b) = some (.file x) := by rw [← hpath, hx]
    unfold FileTree.get? at hthere
    rw [hthere]
    exact Option.some_ne_none _
  have hput : ∀ y, ∃ t₁, t.put (repairTmp e.path) y = some t₁ := fun y =>
    put_isSome hstands (by rw [hx]; rintro ⟨⟩)
  have hleft : ∀ y, ((t.put (repairTmp e.path) y).getD t).get? (repairTmp e.path) = some (.file x) ↔ y = x := by
    intro y
    obtain ⟨t₁, h₁⟩ := hput y
    rw [h₁, Option.getD_some, FileTree.get?_put h₁, if_pos rfl, Option.some.injEq, Node.file.injEq]
  unfold repairMetadata Spares
  dsimp only
  cases io.repairs e.path with
  | unopened => exact iff_of_true hx trivial
  | partly written => exact hleft written
  | unreplaced => exact hleft _
  | replaced =>
    dsimp only
    obtain ⟨t₁, h₁⟩ := hput (contents.dump (repairedMeta e))
    have htmp : repairTmp e.path ≠ metaPath e.path := withSuffix_ne (by simp [metaPath])
    obtain ⟨t₂, h₂⟩ : ∃ t₂, t₁.remove (repairTmp e.path) = some t₂ := by
      have hget : t₁.get? (repairTmp e.path) = some (.file (contents.dump (repairedMeta e))) := by
        rw [FileTree.get?_put h₁, if_pos rfl]
      unfold FileTree.remove
      split
      · exact ⟨_, rfl⟩
      · rename_i hno
        exact absurd hget (hno _)
    have hother : ∀ k, k ≠ repairTmp e.path → t₂.get? k = t.get? k := by
      intro k hk
      rw [FileTree.get?_remove h₂, if_neg (Ne.symm hk), FileTree.get?_put h₁, if_neg (Ne.symm hk)]
    -- the two have one parent, so there is room for the metadata
    have hroom : t₂.Stands (metaPath e.path) := by
      refine ⟨by simp [metaPath], fun a ha => ?_⟩
      rw [← above_repairTmp] at ha
      have hdir := hstands.2 a ha
      rw [hother a (fun heq => by rw [heq, hx] at hdir; cases hdir), hdir]
    obtain ⟨t₃, h₃⟩ := put_isSome (y := contents.dump (repairedMeta e)) hroom
      (by rw [hother _ htmp.symm]; exact hmeta)
    rw [h₁]
    dsimp only
    rw [h₂, Option.bind_some, h₃]
    dsimp only
    rw [FileTree.get?_put h₃, if_neg htmp.symm, FileTree.get?_remove h₂, if_pos rfl]
    exact iff_of_false (by rintro ⟨⟩) id

theorem removeFile_spec (io : Io α) (t : FileTree α) (p : Path) :
    (∀ k, k ≠ p → (removeFile io t p).1.get? k = t.get? k) ∧
      ((removeFile io t p).1.get? p = t.get? p ∨ (removeFile io t p).1.get? p = none) ∧
      ((removeFile io t p).2 ≠ .failed → (removeFile io t p).1.get? p = none) := by
  unfold removeFile
  split
  · rename_i hnone
    exact ⟨fun _ _ => rfl, .inl rfl, fun _ => hnone⟩
  · split
    · exact ⟨fun _ _ => rfl, .inl rfl, fun h => absurd rfl h⟩
    · split
      · rename_i u hu
        have hget := FileTree.get?_remove hu
        exact ⟨fun k hk => by rw [hget, if_neg (Ne.symm hk)], .inr (by rw [hget, if_pos rfl]),
          fun _ => by rw [hget, if_pos rfl]⟩
      · exact ⟨fun _ _ => rfl, .inl rfl, fun h => absurd rfl h⟩

theorem live_of_moved {leaves overwrites : Prop} {subdir : String} {rel : Path}
    (h : HalfMoved t u subdir rel leaves overwrites) (hk : Live k) (hbelow : ¬subdir :: rel <+: k) :
    u.get? k = t.get? k := by
  refine h.other k ?_ ?_ hbelow
  · rintro ⟨b, rfl⟩
    rcases hk with hk | hk
    · exact absurd (Option.some.inj hk) (by decide)
    · exact absurd (Option.some.inj hk) (by decide)
  · rintro rfl
    rcases hk with hk | hk
    · exact absurd (Option.some.inj hk) (by decide)
    · exact absurd (Option.some.inj hk) (by decide)

theorem live_or_none {leaves overwrites : Prop} {subdir : String} {rel : Path}
    (h : HalfMoved t u subdir rel leaves overwrites) (hk : Live k) : u.get? k = t.get? k ∨ u.get? k = none := by
  by_cases hbelow : subdir :: rel <+: k
  · obtain ⟨r, rfl⟩ := hbelow
    exact h.shrinks r
  · exact .inl (live_of_moved h hk hbelow)

/-- Outside of its own entry a round changes nothing but the temporary file of a repair. -/
theorem perform_elsewhere (w : World σ α) (a : Act) (he : e.path ≠ []) (hk : Live k)
    (hdata : ¬dataPath e.path <+: k) (hmeta : ¬metaPath e.path <+: k) (htmp : a = .repair → k ≠ repairTmp e.path) :
    (perform contents io w e a).cache.get? k = w.cache.get? k := by
  have hne : k ≠ dataPath e.path ∧ k ≠ metaPath e.path := by
    constructor
    · rintro rfl
      exact hdata (List.prefix_refl _)
    · rintro rfl
      exact hmeta (List.prefix_refl _)
  cases a with
  | leave => rfl
  | raise => rfl
  | clear =>
    have hfirst := (removeFile_spec io w.cache (dataPath e.path)).1 k hne.1
    exact ((removeFile_spec io _ (metaPath e.path)).1 k hne.2).trans hfirst
  | repair => exact (repairMetadata_spec contents io w.cache e).other k hne.2 (htmp rfl)
  | quarantine reason =>
    have hfirst := live_of_moved (moveOne_moved (io.data e.path) w.cache "vfs" he (by decide)) hk hdata
    exact (live_of_moved (moveOne_moved (io.meta e.path) _ "vfsMeta" he (by decide)) hk hmeta).trans hfirst

/-- No directory comes into the cache. -/
theorem perform_dirs (w : World σ α) (a : Act) (he : e.path ≠ []) (hk : Live k)
    (h : (perform contents io w e a).cache.get? k = some .dir) : w.cache.get? k = some .dir := by
  cases a with
  | leave => exact h
  | raise => exact h
  | clear =>
    have hback : ∀ (t : FileTree α) (p : Path), (removeFile io t p).1.get? k = some .dir → t.get? k = some .dir := by
      intro t p hdir
      obtain ⟨hother, hself, -⟩ := removeFile_spec io t p
      by_cases hkp : k = p
      · subst hkp
        rcases hself with hself | hself
        · rwa [hself] at hdir
        · rw [hself] at hdir
          cases hdir
      · rwa [hother k hkp] at hdir
    exact hback _ _ (hback _ _ h)
  | repair => exact (repairMetadata_spec contents io w.cache e).dirs k h
  | quarantine reason =>
    have hback : ∀ (t : FileTree α) (calls : Calls α) (subdir : String), subdir ≠ "quarantine" →
        (moveOne calls t subdir e.path).1.get? k = some .dir → t.get? k = some .dir := by
      intro t calls subdir hsub hdir
      rcases live_or_none (moveOne_moved calls t subdir he hsub) hk with hsame | hnone
      · rwa [hsame] at hdir
      · rw [hnone] at hdir
        cases hdir
    exact hback _ _ _ (by decide) (hback _ _ _ (by decide) h)

end Rounds

/-! ## What stays as it is -/

/-- An entry that is not dirty, or dirty and without a fault. -/
structure Sound {α : Type} (contents : Contents α) (scan : Scan) (t : FileTree α) (rel : Path) (x : α) : Prop where
  there : t.get? (metaPath rel) = some (.file x)
  entry : ∃ fields, contents.json x = some (.obj fields)
  faultless : ∀ e, readEntry contents scan.open t rel = some e → ¬Faulted e

section Frame

variable {α σ : Type} {contents : Contents α} {io : Io α} {lib : Library} {lookup : σ → Path → Status × σ}
variable {t : FileTree α} {rel : Path} {x : α} {e : DirtyEntry} {w : World σ α} {entries : List DirtyEntry}

/-- The entry is what the scan of the cache read at its path. -/
def Read (contents : Contents α) (scan : Scan) (t : FileTree α) (e : DirtyEntry) : Prop :=
  e.path ≠ [] ∧ readEntry contents scan t e.path = some e

/-- The directories of the cache were there from the start. -/
def Dirs (t u : FileTree α) : Prop := ∀ k, Live k → u.get? k = some .dir → t.get? k = some .dir

/-- What is known of an entry by what is done with it. -/
def Called (w : World σ α) (e : DirtyEntry) : Act → Prop
  | .leave => w.raised = true ∨ ¬Faulted e
  | .clear => e.isOrphaned = true
  | .raise | .repair | .quarantine _ => e.isInconsistent = true

theorem act_called (lib : Library) (lookup : σ → Path → Status × σ) (w : World σ α) (e : DirtyEntry) :
    Called w e (act lib lookup w e).1 := by
  unfold act
  by_cases hraised : w.raised = true
  · rw [if_pos hraised]
    exact .inl hraised
  · rw [if_neg hraised]
    by_cases ho : e.isOrphaned = true
    · rw [if_pos ho]
      exact ho
    · rw [if_neg ho]
      by_cases hi : e.isInconsistent = true
      · rw [if_pos hi]
        dsimp only
        split
        · exact hi
        · exact hi
        · exact hi
      · rw [if_neg hi]
        exact .inr fun h => h.elim ho hi

theorem step_eq (w : World σ α) (e : DirtyEntry) : step contents io lib lookup w e =
    perform contents io { w with probe := (act lib lookup w e).2 } e (act lib lookup w e).1 := rfl

/-- An entry without a fault is left. -/
theorem act_faultless (lib : Library) (lookup : σ → Path → Status × σ) (w : World σ α) (h : ¬Faulted e) :
    (act lib lookup w e).1 = .leave := by
  have hcalled := act_called lib lookup w e
  cases ha : (act lib lookup w e).1 with
  | leave => rfl
  | raise =>
    rw [ha] at hcalled
    exact absurd (.inr hcalled) h
  | clear =>
    rw [ha] at hcalled
    exact absurd (.inl hcalled) h
  | repair =>
    rw [ha] at hcalled
    exact absurd (.inr hcalled) h
  | quarantine reason =>
    rw [ha] at hcalled
    exact absurd (.inr hcalled) h

theorem live_meta (rel : Path) : Live (metaPath rel) := .inr rfl

theorem live_data (rel : Path) : Live (dataPath rel) := .inl rfl

theorem metaPath_within {p q : Path} : metaPath p <+: metaPath q ↔ p <+: q := by
  simp [metaPath]

theorem dataPath_within {p q : Path} : dataPath p <+: dataPath q ↔ p <+: q := by
  simp [dataPath]

/-- Below an entry there is no other. -/
theorem Read.apart {scan : Scan} (he : Read contents scan t e) (hrel : t.get? (metaPath rel) ≠ none)
    (h : e.path <+: rel) : e.path = rel := by
  obtain ⟨-, -, ⟨x, hx, -⟩, -⟩ := readEntry_spec he.2
  obtain ⟨b, rfl⟩ := h
  by_cases hb : b = []
  · rw [hb, List.append_nil]
  · exact absurd (FileTree.get?_below (p := metaPath e.path) (by simp [metaPath]) hb (by rw [hx]; rintro ⟨⟩)) hrel

theorem step_dirs (he : e.path ≠ []) (h : Dirs t w.cache) : Dirs t (step contents io lib lookup w e).cache :=
  fun k hk hdir => h k hk (perform_dirs { w with probe := (act lib lookup w e).2 } (act lib lookup w e).1 he hk hdir)

/-- A round leaves the data of a sound entry, and its metadata unless it repairs the entry
    that has it for the temporary file. -/
theorem step_sound (hsound : Sound contents io.scan t rel x) (he : Read contents io.scan t e) :
    (step contents io lib lookup w e).cache.get? (dataPath rel) = w.cache.get? (dataPath rel) ∧
      (((act lib lookup w e).1 = .repair → metaPath rel ≠ repairTmp e.path) →
        (step contents io lib lookup w e).cache.get? (metaPath rel) = w.cache.get? (metaPath rel)) := by
  by_cases hpath : e.path = rel
  · -- its own round does nothing
    have hfaultless : ¬Faulted e := fun hf =>
      hsound.faultless e (by rw [← hpath]; exact open_of_faulted he.2 hf) hf
    rw [step_eq, act_faultless lib lookup w hfaultless]
    exact ⟨rfl, fun _ => rfl⟩
  · have hbelow : ¬e.path <+: rel := fun h => hpath (he.apart (by rw [hsound.there]; nofun) h)
    constructor
    · refine perform_elsewhere { w with probe := (act lib lookup w e).2 } _ he.1 (live_data rel) ?_ ?_ ?_
      · exact fun h => hbelow (dataPath_within.mp h)
      · exact fun h => absurd (List.cons_prefix_cons.mp h).1 (by decide)
      · rintro - h
        rw [repairTmp_eq he.1] at h
        exact absurd (List.cons.inj h).1 (by decide)
    · intro htmp
      refine perform_elsewhere { w with probe := (act lib lookup w e).2 } _ he.1 (live_meta rel) ?_ ?_ htmp
      · exact fun h => absurd (List.cons_prefix_cons.mp h).1 (by decide)
      · exact fun h => hbelow (metaPath_within.mp h)

/-- With the metadata as it was, a round keeps it so exactly if it is no repair that has it
    for the temporary file, or one that spares it. -/
theorem step_meta_iff (lib : Library) (lookup : σ → Path → Status × σ) (hsound : Sound contents io.scan t rel x)
    (he : Read contents io.scan t e) (hdirs : Dirs t w.cache) (hx : w.cache.get? (metaPath rel) = some (.file x)) :
    (step contents io lib lookup w e).cache.get? (metaPath rel) = some (.file x) ↔
      ((act lib lookup w e).1 = .repair → metaPath rel = repairTmp e.path →
        Spares contents e x (io.repairs e.path)) := by
  by_cases htmp : (act lib lookup w e).1 = .repair ∧ metaPath rel = repairTmp e.path
  · obtain ⟨ha, htmp⟩ := htmp
    have hstep : (step contents io lib lookup w e).cache = (repairMetadata contents io w.cache e).1 := by
      rw [step_eq, ha]
      rfl
    have hmeta : w.cache.get? (metaPath e.path) ≠ some .dir := by
      intro hdir
      obtain ⟨-, -, ⟨y, hy, -⟩, -⟩ := readEntry_spec he.2
      rw [hdirs _ (live_meta _) hdir] at hy
      cases hy
    rw [htmp] at hx ⊢
    rw [hstep, repairMetadata_tmp io hx hmeta]
    exact ⟨fun h _ _ => h, fun h => h ha rfl⟩
  · have hsame : (step contents io lib lookup w e).cache.get? (metaPath rel) = w.cache.get? (metaPath rel) :=
      (step_sound hsound he).2 fun ha h => htmp ⟨ha, h⟩
    rw [hsame]
    exact iff_of_true hx fun ha h => absurd ⟨ha, h⟩ htmp

theorem run_data (hsound : Sound contents io.scan t rel x) :
    ∀ (entries : List DirtyEntry) (w : World σ α), (∀ e ∈ entries, Read contents io.scan t e) →
      (run contents io lib lookup w entries).cache.get? (dataPath rel) = w.cache.get? (dataPath rel) := by
  intro entries
  induction entries with
  | nil => exact fun _ _ => rfl
  | cons e entries ih =>
    intro w hread
    obtain ⟨he, hread⟩ := List.forall_mem_cons.mp hread
    exact (ih _ hread).trans (step_sound hsound he).1

/-- No entry of the run has the metadata for its temporary file. -/
theorem run_meta_same (hsound : Sound contents io.scan t rel x) :
    ∀ (entries : List DirtyEntry) (w : World σ α), (∀ e ∈ entries, Read contents io.scan t e) →
      (∀ e ∈ entries, metaPath rel ≠ repairTmp e.path) →
      (run contents io lib lookup w entries).cache.get? (metaPath rel) = w.cache.get? (metaPath rel) := by
  intro entries
  induction entries with
  | nil => exact fun _ _ _ => rfl
  | cons e entries ih =>
    intro w hread htmp
    obtain ⟨he, hread⟩ := List.forall_mem_cons.mp hread
    obtain ⟨hne, htmp⟩ := List.forall_mem_cons.mp htmp
    exact (ih _ hread htmp).trans ((step_sound hsound he).2 fun _ => hne)

theorem run_meta_iff (hsound : Sound contents io.scan t rel x) :
    ∀ (entries : List DirtyEntry) (w : World σ α), (∀ e ∈ entries, Read contents io.scan t e) →
      (entries.map DirtyEntry.path).Nodup → Dirs t w.cache → w.cache.get? (metaPath rel) = some (.file x) →
      ((run contents io lib lookup w entries).cache.get? (metaPath rel) = some (.file x) ↔
        ∀ p ∈ roundsOf contents io lib lookup w entries, (act lib lookup p.1 p.2).1 = .repair →
          metaPath rel = repairTmp p.2.path → Spares contents p.2 x (io.repairs p.2.path)) := by
  intro entries
  induction entries with
  | nil => exact fun w _ _ _ hx => iff_of_true hx fun p hp => absurd hp List.not_mem_nil
  | cons e entries ih =>
    intro w hread hnodup hdirs hx
    obtain ⟨he, hread⟩ := List.forall_mem_cons.mp hread
    obtain ⟨hout, hnodup⟩ := List.nodup_cons.mp hnodup
    have hstep := step_meta_iff lib lookup hsound he hdirs hx
    rw [roundsOf, List.forall_mem_cons]
    change (run contents io lib lookup (step contents io lib lookup w e) entries).cache.get? _ = _ ↔ _
    by_cases hkept : (step contents io lib lookup w e).cache.get? (metaPath rel) = some (.file x)
    · rw [ih _ hread hnodup (step_dirs he.1 hdirs) hkept]
      exact ⟨fun h => ⟨hstep.mp hkept, h⟩, fun h => h.2⟩
    · -- its one temporary file is that of this entry: the rest of the run leaves it so
      have hthis : metaPath rel = repairTmp e.path := by
        by_contra hne
        exact hkept (hstep.mpr fun _ h => absurd h hne)
      have hothers : ∀ e' ∈ entries, metaPath rel ≠ repairTmp e'.path := by
        intro e' he' h
        have hread' := hread e' he'
        rw [hthis, repairTmp_eq he.1, repairTmp_eq hread'.1] at h
        exact hout (withSuffix_injective he.1 hread'.1 (List.cons.inj h).2 ▸ List.mem_map_of_mem he')
      rw [run_meta_same hsound entries _ hread hothers]
      exact iff_of_false hkept fun h => hkept (hstep.mpr h.1)

theorem entries_read {scan : Scan} (h : iterDirtyEntries contents scan t = some entries) :
    ∀ e ∈ sorted entries, Read contents scan t e := fun _ he => (mem_entries h).mp he

/-- The metadata and the data of every sound entry are what they were. -/
def Unchanged (contents : Contents α) (scan : Scan) (t u : FileTree α) : Prop :=
  ∀ rel x, Sound contents scan t rel x →
    u.get? (metaPath rel) = t.get? (metaPath rel) ∧ u.get? (dataPath rel) = t.get? (dataPath rel)

/-- No repair gets to change the metadata of a sound entry. -/
def SparesSound (contents : Contents α) (io : Io α) (lib : Library) (lookup : σ → Path → Status × σ) (t : FileTree α)
    (probe : σ) : Prop :=
  ∀ p ∈ rounds contents io lib lookup t probe, (act lib lookup p.1 p.2).1 = .repair →
    ∀ rel x, Sound contents io.scan t rel x → metaPath rel = repairTmp p.2.path →
      Spares contents p.2 x (io.repairs p.2.path)

theorem unchanged_iff (contents : Contents α) (io : Io α) (lib : Library) (lookup : σ → Path → Status × σ)
    (t : FileTree α) (probe : σ) :
    Unchanged contents io.scan t (reconcileCache contents io lib lookup t probe).cache ↔
      SparesSound contents io lib lookup t probe := by
  unfold Unchanged SparesSound reconcileCache rounds
  cases hscan : iterDirtyEntries contents io.scan t with
  | none => exact iff_of_true (fun _ _ _ => ⟨rfl, rfl⟩) fun p hp => absurd hp List.not_mem_nil
  | some entries =>
    dsimp only
    have hread := entries_read hscan
    have hmeta : ∀ rel x, Sound contents io.scan t rel x →
        ((run contents io lib lookup ⟨t, probe, [], false, false⟩ (sorted entries)).cache.get? (metaPath rel) =
            t.get? (metaPath rel) ↔
          ∀ p ∈ roundsOf contents io lib lookup ⟨t, probe, [], false, false⟩ (sorted entries),
            (act lib lookup p.1 p.2).1 = .repair → metaPath rel = repairTmp p.2.path →
              Spares contents p.2 x (io.repairs p.2.path)) := by
      intro rel x hsound
      rw [hsound.there]
      exact run_meta_iff hsound _ _ hread (entries_nodup hscan) (fun _ _ h => h) hsound.there
    constructor
    · intro h p hp ha rel x hsound htmp
      exact (hmeta rel x hsound).mp (h rel x hsound).1 p hp ha htmp
    · intro h rel x hsound
      exact ⟨(hmeta rel x hsound).mpr fun p hp ha => h p hp ha rel x hsound, run_data hsound _ _ hread⟩

end Frame

/-! ## What is in the data files -/

section Data

variable {α σ : Type} {contents : Contents α} {io : Io α} {lib : Library} {lookup : σ → Path → Status × σ}
variable {t u : FileTree α} {rel : Path} {x : α} {e : DirtyEntry} {w : World σ α} {entries : List DirtyEntry}

/-- The content stands in a data file of the cache or of the quarantine. -/
def Holds (u : FileTree α) (x : α) : Prop :=
  ∃ q, (["vfs"] <+: q ∨ ["quarantine", "vfs"] <+: q) ∧ u.get? q = some (.file x)

/-- Data files are never written: each is what it was, or gone. -/
def DataKept (t u : FileTree α) : Prop :=
  ∀ rel, u.get? (dataPath rel) = t.get? (dataPath rel) ∨ u.get? (dataPath rel) = none

theorem data_ne_meta (p q : Path) : dataPath p ≠ metaPath q := fun h => absurd (List.cons.inj h).1 (by decide)

/-- Of an entry without data there is no data file. -/
theorem Read.absent {scan : Scan} (he : Read contents scan t e) (ho : e.isOrphaned = true) :
    t.get? (dataPath e.path) = none := by
  obtain ⟨-, -, -, -, hstat⟩ := readEntry_spec he.2
  have hdata : e.hasData = false := by simpa [DirtyEntry.isOrphaned] using ho
  rw [hdata] at hstat
  unfold statDataFile at hstat
  split at hstat
  · exact absurd (Prod.mk.inj hstat).1 (by decide)
  · split at hstat
    · exact absurd (Prod.mk.inj hstat).1 (by decide)
    · exact absurd (Prod.mk.inj hstat).1 (by decide)
    · assumption

theorem perform_data (w : World σ α) (a : Act) (he : e.path ≠ []) (rel : Path) :
    (perform contents io w e a).cache.get? (dataPath rel) = w.cache.get? (dataPath rel) ∨
      (perform contents io w e a).cache.get? (dataPath rel) = none := by
  cases a with
  | leave => exact .inl rfl
  | raise => exact .inl rfl
  | clear =>
    obtain ⟨hother, hself, -⟩ := removeFile_spec io w.cache (dataPath e.path)
    have hrest := (removeFile_spec io (removeFile io w.cache (dataPath e.path)).1 (metaPath e.path)).1
      (dataPath rel) (data_ne_meta rel e.path)
    change (removeFile io (removeFile io w.cache (dataPath e.path)).1 (metaPath e.path)).1.get? _ = _ ∨
      (removeFile io (removeFile io w.cache (dataPath e.path)).1 (metaPath e.path)).1.get? _ = _
    rw [hrest]
    by_cases hrel : dataPath rel = dataPath e.path
    · rw [hrel]
      exact hself
    · exact .inl (hother _ hrel)
  | repair =>
    refine .inl ((repairMetadata_spec contents io w.cache e).other _ (data_ne_meta rel e.path) ?_)
    rw [repairTmp_eq he]
    exact data_ne_meta rel _
  | quarantine reason =>
    have hfirst := live_or_none (moveOne_moved (io.data e.path) w.cache "vfs" he (by decide)) (live_data rel)
    have hsecond := live_of_moved (moveOne_moved (io.meta e.path) (moveOne (io.data e.path) w.cache "vfs" e.path).1
      "vfsMeta" he (by decide)) (live_data rel) fun h => absurd (List.cons_prefix_cons.mp h).1 (by decide)
    rcases hfirst with hsame | hnone
    · exact .inl (hsecond.trans hsame)
    · exact .inr (hsecond.trans hnone)

/-- Of the two moves that of the data loses no content that the other would not. -/
theorem quarantine_holds (he : e.path ≠ []) (reason : String)
    (hover : ¬Overwrites (io.data e.path) w.cache "vfs" e.path) (hx : Holds w.cache x) :
    Holds (perform contents io w e (.quarantine reason)).cache x := by
  have hdata := moveOne_moved (io.data e.path) w.cache "vfs" he (by decide)
  have hmeta := moveOne_moved (io.meta e.path) (moveOne (io.data e.path) w.cache "vfs" e.path).1 "vfsMeta" he
    (by decide)
  have hfirst : Holds (moveOne (io.data e.path) w.cache "vfs" e.path).1 x := by
    obtain ⟨q, hq | hq, hqx⟩ := hx
    · by_cases hbelow : "vfs" :: e.path <+: q
      · obtain ⟨r, rfl⟩ := hbelow
        rcases hdata.kept r x hqx with hsame | ⟨q', hq', hx'⟩
        · exact ⟨_, .inl hq, hsame⟩
        · exact ⟨q', .inr hq', hx'⟩
      · have hlive : Live q := by
          obtain ⟨b, rfl⟩ := hq
          exact .inl rfl
        exact ⟨q, .inl hq, (live_of_moved hdata hlive hbelow).trans hqx⟩
    · have hhead : q.head? = some "quarantine" := by
        obtain ⟨b, rfl⟩ := hq
        rfl
      exact ⟨q, .inr hq, hdata.files hover q x hhead hqx⟩
  obtain ⟨q, hq, hqx⟩ := hfirst
  -- neither place is one of the metadata
  refine ⟨q, hq, (hmeta.other q ?_ ?_ ?_).trans hqx⟩
  · rcases hq with ⟨b, rfl⟩ | ⟨b, rfl⟩
    · exact fun h => absurd (List.cons_prefix_cons.mp h).1 (by decide)
    · exact fun h => absurd (List.cons_prefix_cons.mp (List.cons_prefix_cons.mp h).2).1 (by decide)
  · rintro rfl
    rcases hq with hq | hq
    · exact absurd (List.cons_prefix_cons.mp hq).1 (by decide)
    · exact absurd hq.length_le (by decide)
  · rcases hq with ⟨b, rfl⟩ | ⟨b, rfl⟩
    · exact fun h => absurd (List.cons_prefix_cons.mp h).1 (by decide)
    · exact fun h => absurd (List.cons_prefix_cons.mp h).1 (by decide)

/-- The move of the data in this round writes over a file. -/
def LosesOver (io : Io α) (lib : Library) (lookup : σ → Path → Status × σ) (w : World σ α) (e : DirtyEntry) : Prop :=
  (∃ reason, (act lib lookup w e).1 = .quarantine reason) ∧ Overwrites (io.data e.path) w.cache "vfs" e.path

theorem step_holds (he : Read contents io.scan t e) (hkept : DataKept t w.cache) (hover : ¬LosesOver io lib lookup w e)
    (hx : Holds w.cache x) : Holds (step contents io lib lookup w e).cache x := by
  have hcalled := act_called lib lookup w e
  have hnotMeta : ∀ {q : Path} (p : Path), (["vfs"] <+: q ∨ ["quarantine", "vfs"] <+: q) → q ≠ metaPath p := by
    rintro q p (⟨b, rfl⟩ | ⟨b, rfl⟩)
    · exact fun h => absurd (List.cons.inj h).1 (by decide)
    · exact fun h => absurd (List.cons.inj h).1 (by decide)
  rw [step_eq]
  cases ha : (act lib lookup w e).1 with
  | leave => exact hx
  | raise => exact hx
  | clear =>
    rw [ha] at hcalled
    have habsent : w.cache.get? (dataPath e.path) = none := by
      rcases hkept e.path with h | h
      · rw [h, he.absent hcalled]
      · exact h
    obtain ⟨q, hq, hqx⟩ := hx
    have hne : q ≠ dataPath e.path := by
      rintro rfl
      rw [habsent] at hqx
      cases hqx
    have hfirst := (removeFile_spec io w.cache (dataPath e.path)).1 q hne
    have hsecond := (removeFile_spec io (removeFile io w.cache (dataPath e.path)).1 (metaPath e.path)).1 q
      (hnotMeta e.path hq)
    exact ⟨q, hq, (hsecond.trans hfirst).trans hqx⟩
  | repair =>
    obtain ⟨q, hq, hqx⟩ := hx
    refine ⟨q, hq, ((repairMetadata_spec contents io w.cache e).other q (hnotMeta e.path hq) ?_).trans hqx⟩
    rw [repairTmp_eq he.1]
    exact hnotMeta _ hq
  | quarantine reason =>
    exact quarantine_holds he.1 reason (fun h => hover ⟨⟨reason, ha⟩, h⟩) hx

theorem run_holds :
    ∀ (entries : List DirtyEntry) (w : World σ α), (∀ e ∈ entries, Read contents io.scan t e) → DataKept t w.cache →
      (∀ p ∈ roundsOf contents io lib lookup w entries, ¬LosesOver io lib lookup p.1 p.2) →
      Holds w.cache x → Holds (run contents io lib lookup w entries).cache x := by
  intro entries
  induction entries with
  | nil => exact fun _ _ _ _ hx => hx
  | cons e entries ih =>
    intro w hread hkept hover hx
    obtain ⟨he, hread⟩ := List.forall_mem_cons.mp hread
    rw [roundsOf] at hover
    obtain ⟨hthis, hover⟩ := List.forall_mem_cons.mp hover
    refine ih _ hread (fun rel => ?_) hover (step_holds he hkept hthis hx)
    rcases perform_data { w with probe := (act lib lookup w e).2 } (act lib lookup w e).1 he.1 rel with h | h
    · exact (hkept rel).imp h.trans h.trans
    · exact .inr h

/-- What a data file holds is in the cache or the quarantine afterwards. -/
def Survives (t u : FileTree α) : Prop := ∀ rel x, t.get? (dataPath rel) = some (.file x) → Holds u x

theorem survives (contents : Contents α) (io : Io α) (lib : Library) (lookup : σ → Path → Status × σ) (t : FileTree α)
    (probe : σ) (hover : ∀ p ∈ rounds contents io lib lookup t probe, ¬LosesOver io lib lookup p.1 p.2) :
    Survives t (reconcileCache contents io lib lookup t probe).cache := by
  intro rel x hx
  unfold rounds at hover
  unfold reconcileCache
  cases hscan : iterDirtyEntries contents io.scan t with
  | none => exact ⟨dataPath rel, .inl ⟨rel, rfl⟩, hx⟩
  | some entries =>
    rw [hscan] at hover
    exact run_holds _ _ (entries_read hscan) (fun _ => .inl rfl) hover ⟨dataPath rel, .inl ⟨rel, rfl⟩, hx⟩

end Data

/-! ## A second reconcile -/

section Second

variable {α σ : Type} {contents : Contents α} {io : Io α} {lib : Library} {lookup : σ → Path → Status × σ}
variable {scan : Scan} {t u : FileTree α} {rel : Path} {e : DirtyEntry} {w : World σ α} {entries : List DirtyEntry}

/-- The scan was refused nothing. -/
structure Scan.Allowed (scan : Scan) : Prop where
  lists : scan.lists = true
  opens : ∀ p, scan.opens p = true
  stats : ∀ p, scan.stats p = true

theorem Scan.Allowed.open_eq (h : scan.Allowed) : scan.open = scan := by
  obtain ⟨lists, opens, stats, dirSize⟩ := scan
  obtain ⟨hlists, hopens, hstats⟩ := h
  obtain rfl : lists = true := hlists
  obtain rfl : opens = fun _ => true := funext hopens
  obtain rfl : stats = fun _ => true := funext hstats
  rfl

/-- What the stat of the data goes by is what it was. -/
def DataSame (t u : FileTree α) (rel : Path) : Prop := ∀ k, k ≠ [] → k <+: dataPath rel → u.get? k = t.get? k

theorem DataSame.stat (h : DataSame t u rel) :
    statDataFile contents scan u (dataPath rel) = statDataFile contents scan t (dataPath rel) := by
  have hself : u.get? (dataPath rel) = t.get? (dataPath rel) := h _ (by simp [dataPath]) (List.prefix_refl _)
  have hblocked : blocked u (dataPath rel) = blocked t (dataPath rel) := by
    unfold blocked
    rw [Bool.eq_iff_iff, List.any_eq_true, List.any_eq_true]
    refine exists_congr fun a => and_congr_right fun ha => ?_
    obtain ⟨hne, b, -, hb⟩ := FileTree.mem_above.mp ha
    rw [h a hne ⟨b, hb.symm⟩]
  unfold statDataFile
  rw [hself, hblocked]

/-- How the metadata at a path stands in the midst of a run, with the entries still to come. -/
inductive Standing (contents : Contents α) (scan : Scan) (t u : FileTree α) (coming : List DirtyEntry) (rel : Path) :
    Prop
  | gone (nofile : ∀ y, u.get? (metaPath rel) ≠ some (.file y))
  | asItWas (same : u.get? (metaPath rel) = t.get? (metaPath rel)) (dataSame : DataSame t u rel)
      (comes : ∀ e, readEntry contents scan t rel = some e → Faulted e → e ∈ coming)
  | repaired (e : DirtyEntry) (read : readEntry contents scan t rel = some e) (inconsistent : e.isInconsistent = true)
      (rewritten : u.get? (metaPath rel) = some (.file (contents.dump (repairedMeta e)))) (dataSame : DataSame t u rel)

/-- What holds in the midst of a run without an error. -/
structure Settling (contents : Contents α) (scan : Scan) (t u : FileTree α) (coming : List DirtyEntry) : Prop where
  dirs : Dirs t u
  files : ∀ rel y, u.get? (metaPath rel) = some (.file y) → ∃ z, t.get? (metaPath rel) = some (.file z)
  comingData : ∀ e ∈ coming, DataSame t u e.path
  standing : ∀ rel, Standing contents scan t u coming rel

theorem truthy_size {e : DirtyEntry} (hdirty : isDirty e.meta = true) (hi : e.isInconsistent = true) :
    DirtyEntry.truthy ((repairedMeta e).get? "Size") = true := by
  obtain ⟨-, n, hn, hn0⟩ := inconsistent_spec hi
  obtain ⟨j, hj, hsize, -⟩ := repairedMeta_saysAll hdirty 0 hn
  obtain rfl := Option.some.inj hj
  rw [hsize]
  simpa [DirtyEntry.truthy, Json.truthy] using hn0

/-- With nothing to come no entry has a fault. -/
theorem Settling.faultless (h : Settling contents scan t u []) (hread : readEntry contents scan u rel = some e) :
    ¬Faulted e := by
  intro hf
  obtain ⟨hpath, hdirty, ⟨y, hy, hjson⟩, hopens, hstat⟩ := readEntry_spec hread
  cases h.standing rel with
  | gone nofile => exact nofile y hy
  | asItWas same dataSame comes =>
    refine List.not_mem_nil (comes e ?_ hf)
    rw [same] at hy
    rw [readEntry_of hy hjson hdirty hopens, ← dataSame.stat, hstat, ← hpath]
  | repaired e' read inconsistent rewritten dataSame =>
    obtain ⟨-, hdirty', -, -, hstat'⟩ := readEntry_spec read
    rw [dataSame.stat, hstat'] at hstat
    obtain ⟨hdata, -⟩ := inconsistent_spec inconsistent
    rw [rewritten] at hy
    obtain rfl := Node.file.inj (Option.some.inj hy)
    rw [contents.json_dump] at hjson
    have hmeta := Option.some.inj hjson
    rcases hf with ho | hi
    · have hthere : e.hasData = true := by rw [← (Prod.mk.inj hstat).1, hdata]
      simp [DirtyEntry.isOrphaned, hthere] at ho
    · have htruthy := truthy_size hdirty' inconsistent
      rw [hmeta] at htruthy
      simp [DirtyEntry.isInconsistent, htruthy] at hi

/-- A move that does not fail leaves nothing at its source. -/
theorem gone_of_moveFails {calls : Calls α} {subdir : String} (he : e.path ≠ []) (hsub : subdir ≠ "quarantine")
    (h : moveFails calls t subdir e.path = false) :
    (moveOne calls t subdir e.path).1.get? (subdir :: e.path) = none := by
  unfold moveFails at h
  rw [Bool.or_eq_false_iff, Bool.and_eq_false_iff, Bool.not_eq_false'] at h
  obtain ⟨-, hnone | hreturned⟩ := h
  · have hsource : t.get? (subdir :: e.path) = none := by simpa using hnone
    have hmoved := (moveOne_moved calls t subdir he hsub).shrinks []
    rw [List.append_nil, hsource, or_self] at hmoved
    exact hmoved
  · exact moveOne_returned he hsub hreturned

/-- What a faulted entry comes to in a round without an error. -/
theorem settled_of_step (hraised : w.raised = false) (hact : (act lib lookup w e).1 ≠ .raise) (he : e.path ≠ [])
    (hfailed : (step contents io lib lookup w e).failed = false) (hf : Faulted e) :
    (step contents io lib lookup w e).cache.get? (metaPath e.path) = none ∨
      (act lib lookup w e).1 = .repair ∧ e.isInconsistent = true ∧
        (step contents io lib lookup w e).cache.get? (metaPath e.path) =
          some (.file (contents.dump (repairedMeta e))) := by
  have hcalled := act_called lib lookup w e
  rw [step_eq] at hfailed ⊢
  cases ha : (act lib lookup w e).1 with
  | leave =>
    rw [ha] at hcalled
    rcases hcalled with h | h
    · rw [hraised] at h
      cases h
    · exact absurd hf h
  | raise => exact absurd ha hact
  | clear =>
    rw [ha] at hfailed
    simp only [perform, Bool.or_eq_false_iff, decide_eq_false_iff_not] at hfailed
    exact .inl ((removeFile_spec io _ (metaPath e.path)).2.2 hfailed.2)
  | repair =>
    rw [ha] at hfailed hcalled
    simp only [perform, Bool.or_eq_false_iff, Bool.not_eq_false'] at hfailed
    exact .inr ⟨rfl, hcalled, ((repairMetadata_spec contents io w.cache e).done hfailed.2).2⟩
  | quarantine reason =>
    rw [ha] at hfailed
    simp only [perform, Bool.or_eq_false_iff] at hfailed
    exact .inl (gone_of_moveFails he (by decide) hfailed.2)

/-- A round that repairs, and has no error, leaves nothing at its temporary name. -/
theorem tmp_of_step (hfailed : (step contents io lib lookup w e).failed = false)
    (ha : (act lib lookup w e).1 = .repair) :
    (step contents io lib lookup w e).cache.get? (repairTmp e.path) = none := by
  rw [step_eq, ha] at hfailed ⊢
  simp only [perform, Bool.or_eq_false_iff, Bool.not_eq_false'] at hfailed
  exact ((repairMetadata_spec contents io w.cache e).done hfailed.2).1

theorem live_of_data {k : Path} (hk : k ≠ []) (h : k <+: dataPath rel) : Live k := by
  cases k with
  | nil => exact absurd rfl hk
  | cons c k => exact .inl (congrArg some (List.cons_prefix_cons.mp h).1)

theorem step_dataSame (he : Read contents scan t e) (hsame : DataSame t w.cache rel)
    (hrel : rel ≠ e.path → t.get? (metaPath rel) ≠ none)
    (hown : rel = e.path → (act lib lookup w e).1 = .repair ∨ (act lib lookup w e).1 = .leave) :
    DataSame t (step contents io lib lookup w e).cache rel := by
  intro k hk hbelow
  have hlive := live_of_data hk hbelow
  have hnotMeta : ∀ p, k ≠ metaPath p := by
    rintro p rfl
    exact absurd (List.cons_prefix_cons.mp hbelow).1 (by decide)
  rw [← hsame k hk hbelow, step_eq]
  by_cases hpath : rel = e.path
  · rcases hown hpath with ha | ha
    · rw [ha]
      refine (repairMetadata_spec contents io w.cache e).other k (hnotMeta _) ?_
      rw [repairTmp_eq he.1]
      exact hnotMeta _
    · rw [ha]
      rfl
  · refine perform_elsewhere { w with probe := (act lib lookup w e).2 } _ he.1 hlive (fun h => ?_) (fun h => ?_)
      fun _ => ?_
    · exact hpath (he.apart (hrel hpath) (dataPath_within.mp (h.trans hbelow))).symm
    · exact absurd (List.cons_prefix_cons.mp (h.trans hbelow)).1 (by decide)
    · rw [repairTmp_eq he.1]
      exact hnotMeta _

/-- Elsewhere a round without an error leaves the metadata, or takes it away. -/
theorem step_meta (he : Read contents scan t e) (hdirs : Dirs t w.cache) (hpath : rel ≠ e.path)
    (hfailed : (step contents io lib lookup w e).failed = false) :
    (step contents io lib lookup w e).cache.get? (metaPath rel) = w.cache.get? (metaPath rel) ∨
      ∀ y, (step contents io lib lookup w e).cache.get? (metaPath rel) ≠ some (.file y) := by
  by_cases htmp : (act lib lookup w e).1 = .repair ∧ metaPath rel = repairTmp e.path
  · right
    intro y
    rw [htmp.2, tmp_of_step hfailed htmp.1]
    rintro ⟨⟩
  · by_cases hbelow : e.path <+: rel
    · -- below an entry there are no directories
      right
      intro y hy
      obtain ⟨b, rfl⟩ := hbelow
      have hb : b ≠ [] := fun hnil => hpath (by rw [hnil, List.append_nil])
      obtain ⟨-, -, ⟨z, hz, -⟩, -⟩ := readEntry_spec he.2
      have hdir := (step contents io lib lookup w e).cache.closed (metaPath e.path) b (by simp [metaPath]) hb
        (by
          change (step contents io lib lookup w e).cache.get? (metaPath (e.path ++ b)) ≠ none
          rw [hy]
          exact Option.some_ne_none _)
      rw [step_dirs he.1 hdirs _ (live_meta _) hdir] at hz
      cases hz
    · left
      refine perform_elsewhere { w with probe := (act lib lookup w e).2 } _ he.1 (live_meta rel) ?_ ?_ ?_
      · exact fun h => absurd (List.cons_prefix_cons.mp h).1 (by decide)
      · exact fun h => hbelow (metaPath_within.mp h)
      · exact fun ha h => htmp ⟨ha, h⟩

theorem step_settling (he : Read contents scan t e) (hread : ∀ e' ∈ entries, Read contents scan t e')
    (hout : e.path ∉ entries.map DirtyEntry.path) (hraised : w.raised = false)
    (hact : (act lib lookup w e).1 ≠ .raise) (hfailed : (step contents io lib lookup w e).failed = false)
    (h : Settling contents scan t w.cache (e :: entries)) :
    Settling contents scan t (step contents io lib lookup w e).cache entries := by
  have hthere : ∀ {e'}, Read contents scan t e' → t.get? (metaPath e'.path) ≠ none := by
    intro e' he'
    obtain ⟨-, -, ⟨x, hx, -⟩, -⟩ := readEntry_spec he'.2
    rw [hx]
    nofun
  constructor
  · exact step_dirs he.1 h.dirs
  · intro rel y hy
    by_cases hpath : rel = e.path
    · obtain ⟨-, -, ⟨x, hx, -⟩, -⟩ := readEntry_spec he.2
      exact ⟨x, by rw [hpath, hx]⟩
    · rcases step_meta he h.dirs hpath hfailed with hsame | hnofile
      · exact h.files rel y (hsame.symm.trans hy)
      · exact absurd hy (hnofile y)
  · intro e' he'
    have hne : e'.path ≠ e.path := fun heq => hout (heq ▸ List.mem_map_of_mem he')
    exact step_dataSame he (h.comingData e' (List.mem_cons_of_mem _ he')) (fun _ => hthere (hread e' he'))
      fun heq => absurd heq hne
  · intro rel
    by_cases hpath : rel = e.path
    · subst hpath
      by_cases hf : Faulted e
      · -- its own round
        rcases settled_of_step hraised hact he.1 hfailed hf with hnone | ⟨ha, hi, hmeta⟩
        · exact .gone fun y hy => by rw [hnone] at hy; cases hy
        · exact .repaired e he.2 hi hmeta (step_dataSame he (h.comingData e List.mem_cons_self)
            (fun hne => absurd rfl hne) fun _ => .inl ha)
      · have hleave := act_faultless lib lookup w hf
        have hcache : (step contents io lib lookup w e).cache = w.cache := by
          rw [step_eq, hleave]
          rfl
        rw [hcache]
        cases h.standing e.path with
        | gone nofile => exact .gone nofile
        | asItWas same dataSame comes =>
          refine .asItWas same dataSame fun e' hread' hf' => ?_
          rw [he.2] at hread'
          exact absurd (Option.some.inj hread' ▸ hf') hf
        | repaired e' read inconsistent rewritten dataSame => exact .repaired e' read inconsistent rewritten dataSame
    · rcases step_meta he h.dirs hpath hfailed with hsame | hnofile
      · cases h.standing rel with
        | gone nofile => exact .gone fun y => hsame ▸ nofile y
        | asItWas same dataSame comes =>
          by_cases hfile : t.get? (metaPath rel) = none
          · exact .gone fun y hy => by
              rw [hsame, same, hfile] at hy
              cases hy
          · have hdata : DataSame t (step contents io lib lookup w e).cache rel :=
              step_dataSame he dataSame (fun _ => hfile) fun heq => absurd heq hpath
            refine .asItWas (hsame.trans same) hdata fun e' hread' hf' => ?_
            rcases List.mem_cons.mp (comes e' hread' hf') with rfl | hmem
            · exact absurd (readEntry_spec hread').1.symm hpath
            · exact hmem
        | repaired e' read inconsistent rewritten dataSame =>
          have hfile : t.get? (metaPath rel) ≠ none := by
            obtain ⟨-, -, ⟨x, hx, -⟩, -⟩ := readEntry_spec read
            rw [hx]
            nofun
          exact .repaired e' read inconsistent (hsame.trans rewritten)
            (step_dataSame he dataSame (fun _ => hfile) fun heq => absurd heq hpath)
      · exact .gone hnofile

/-- An error stays on record. -/
theorem failed_of_step (h : w.failed = true) (e : DirtyEntry) : (step contents io lib lookup w e).failed = true := by
  rw [step_eq]
  cases (act lib lookup w e).1 with
  | leave => exact h
  | raise => exact h
  | clear => simp [perform, h]
  | repair => simp [perform, h]
  | quarantine reason => simp [perform, h]

theorem failed_of_run : ∀ (entries : List DirtyEntry) (w : World σ α), w.failed = true →
    (run contents io lib lookup w entries).failed = true := by
  intro entries
  induction entries with
  | nil => exact fun _ h => h
  | cons e entries ih => exact fun w h => ih _ (failed_of_step h e)

theorem raised_of_step (hraised : w.raised = false) (hact : (act lib lookup w e).1 ≠ .raise)
    (hfailed : (step contents io lib lookup w e).failed = false) :
    (step contents io lib lookup w e).raised = false := by
  rw [step_eq] at hfailed ⊢
  cases ha : (act lib lookup w e).1 with
  | leave => exact hraised
  | raise => exact absurd ha hact
  | clear => exact hraised
  | repair =>
    rw [ha] at hfailed
    simp only [perform, Bool.or_eq_false_iff] at hfailed
    exact hfailed.2
  | quarantine reason => exact hraised

theorem run_settling :
    ∀ (entries : List DirtyEntry) (w : World σ α), (∀ e ∈ entries, Read contents scan t e) →
      (entries.map DirtyEntry.path).Nodup → w.raised = false →
      (∀ p ∈ roundsOf contents io lib lookup w entries, (act lib lookup p.1 p.2).1 ≠ .raise) →
      (run contents io lib lookup w entries).failed = false → Settling contents scan t w.cache entries →
      Settling contents scan t (run contents io lib lookup w entries).cache [] := by
  intro entries
  induction entries with
  | nil => exact fun _ _ _ _ _ _ h => h
  | cons e entries ih =>
    intro w hread hnodup hraised hact hfailed h
    obtain ⟨he, hread⟩ := List.forall_mem_cons.mp hread
    obtain ⟨hout, hnodup⟩ := List.nodup_cons.mp hnodup
    rw [roundsOf] at hact
    obtain ⟨hthis, hact⟩ := List.forall_mem_cons.mp hact
    have hstep : (step contents io lib lookup w e).failed = false := by
      by_contra hno
      have hyes : (run contents io lib lookup (step contents io lib lookup w e) entries).failed = true :=
        failed_of_run entries _ (Bool.eq_true_of_not_eq_false hno)
      change (run contents io lib lookup (step contents io lib lookup w e) entries).failed = false at hfailed
      rw [hfailed] at hyes
      cases hyes
    exact ih _ hread hnodup (raised_of_step hraised hthis hstep) hact hfailed
      (step_settling he hread hout hraised hthis hstep h)

/-- Without a fault there is nothing to do. -/
theorem run_idle (contents : Contents α) (io : Io α) (lib : Library) (lookup : σ → Path → Status × σ) :
    ∀ (entries : List DirtyEntry) (w : World σ α), (∀ e ∈ entries, ¬Faulted e) →
      (run contents io lib lookup w entries).cache = w.cache ∧
        (run contents io lib lookup w entries).records = w.records := by
  intro entries
  induction entries with
  | nil => exact fun _ _ => ⟨rfl, rfl⟩
  | cons e entries ih =>
    intro w hfaultless
    obtain ⟨hthis, hfaultless⟩ := List.forall_mem_cons.mp hfaultless
    obtain ⟨hcache, hrecords⟩ := ih (step contents io lib lookup w e) hfaultless
    have hstep : (step contents io lib lookup w e).cache = w.cache ∧
        (step contents io lib lookup w e).records = w.records := by
      rw [step_eq, act_faultless lib lookup w hthis]
      exact ⟨rfl, rfl⟩
    exact ⟨hcache.trans hstep.1, hrecords.trans hstep.2⟩

/-- A reconcile of the tree does nothing, whatever is refused to it and whatever it is told
    of the remote; the sizes of directories are what they were. -/
def Idle (contents : Contents α) (dirSize : Path → Nat) (u : FileTree α) : Prop :=
  ∀ (τ : Type) (io : Io α) (lib : Library) (lookup : τ → Path → Status × τ) (probe : τ), io.scan.dirSize = dirSize →
    (reconcileCache contents io lib lookup u probe).records = [] ∧
      (reconcileCache contents io lib lookup u probe).cache = u

theorem second_idle (contents : Contents α) (io : Io α) (lib : Library) (lookup : σ → Path → Status × σ)
    (t : FileTree α) (probe : σ) (hallowed : io.scan.Allowed)
    (hfailed : (reconcileCache contents io lib lookup t probe).failed = false)
    (hact : ∀ p ∈ rounds contents io lib lookup t probe, (act lib lookup p.1 p.2).1 ≠ .raise) :
    Idle contents io.scan.dirSize (reconcileCache contents io lib lookup t probe).cache := by
  have hsettled : Settling contents io.scan t (reconcileCache contents io lib lookup t probe).cache [] := by
    unfold rounds at hact
    unfold reconcileCache at hfailed ⊢
    cases hscan : iterDirtyEntries contents io.scan t with
    | none =>
      rw [hscan] at hfailed
      cases hfailed
    | some entries =>
      rw [hscan] at hfailed hact
      have hread := entries_read hscan
      refine run_settling _ _ hread (entries_nodup hscan) rfl hact hfailed ?_
      refine ⟨fun _ _ h => h, fun _ y h => ⟨y, h⟩, fun _ _ _ _ _ => rfl, fun rel => ?_⟩
      by_cases hrel : rel = []
      · subst hrel
        refine .gone fun y hy => ?_
        -- the metadata's root is a file: the scan has failed
        unfold iterDirtyEntries at hscan
        change t.get? ["vfsMeta"] = some (.file y) at hy
        rw [hallowed.lists, hy] at hscan
        cases hscan
      · refine .asItWas rfl (fun _ _ _ => rfl) fun e hread' hf => ?_
        obtain ⟨rfl, -⟩ := readEntry_spec hread'
        exact (mem_entries hscan).mpr ⟨hrel, hread'⟩
  intro τ io' lib' lookup' probe' hsize
  generalize (reconcileCache contents io lib lookup t probe).cache = u at hsettled
  unfold reconcileCache
  cases hscan : iterDirtyEntries contents io'.scan u with
  | none => exact ⟨rfl, rfl⟩
  | some entries =>
    have hidle := run_idle contents io' lib' lookup' (sorted entries) ⟨u, probe', [], false, false⟩ fun e he hf => by
      have hread := open_of_faulted ((mem_entries hscan).mp he).2 hf
      have hopen : io'.scan.open = io.scan := by
        rw [← hallowed.open_eq]
        unfold Scan.open
        rw [hsize]
      rw [hopen] at hread
      exact hsettled.faultless hread hf
    exact ⟨hidle.2, hidle.1⟩

end Second

/-! ## The whole -/

section Whole

variable {α σ : Type}

/-- What a reconcile is said to be: it changes faulted entries only, loses no content, and
    leaves nothing to a second one where no call was refused. -/
structure Framed (contents : Contents α) (io : Io α) (lib : Library) (lookup : σ → Path → Status × σ) (t : FileTree α)
    (probe : σ) : Prop where
  unchanged : Unchanged contents io.scan t (reconcileCache contents io lib lookup t probe).cache
  survives : Survives t (reconcileCache contents io lib lookup t probe).cache
  idle : io.scan.Allowed → (reconcileCache contents io lib lookup t probe).failed = false →
    Idle contents io.scan.dirSize (reconcileCache contents io lib lookup t probe).cache

/-- No data is moved over a file of the quarantine, and no verdict raises. -/
def Orderly (contents : Contents α) (io : Io α) (lib : Library) (lookup : σ → Path → Status × σ) (t : FileTree α)
    (probe : σ) : Prop :=
  ∀ p ∈ rounds contents io lib lookup t probe, ¬LosesOver io lib lookup p.1 p.2 ∧ (act lib lookup p.1 p.2).1 ≠ .raise

theorem reconcile_frame (contents : Contents α) (io : Io α) (lib : Library) (lookup : σ → Path → Status × σ)
    (t : FileTree α) (probe : σ) :
    (SparesSound contents io lib lookup t probe ∧ Orderly contents io lib lookup t probe →
        Framed contents io lib lookup t probe) ∧
      (Framed contents io lib lookup t probe → SparesSound contents io lib lookup t probe) := by
  have hunchanged := unchanged_iff contents io lib lookup t probe
  refine ⟨fun ⟨hspares, horderly⟩ => ⟨hunchanged.mpr hspares, ?_, fun hallowed hfailed => ?_⟩, fun h =>
    hunchanged.mp h.unchanged⟩
  · exact survives contents io lib lookup t probe fun p hp => (horderly p hp).1
  · exact second_idle contents io lib lookup t probe hallowed hfailed fun p hp => (horderly p hp).2

end Whole

/-- Texts, as `json.load` and `json.dump` have them. -/
def texts : Contents (List Char) where
  size := List.length
  json := Json.parse
  dump := Json.dumps
  json_dump := Json.parse_write Json.spaced_valid

def desynced : Json := .obj [("Dirty", .bool true), ("Size", .int 0), ("Rs", .null)]

def clean : Json := .obj [("Dirty", .bool false), ("Size", .int 5)]

/-- `r/a.txt` was never uploaded, and its metadata says that it is empty; the file beside it
    was read and never changed. -/
def beside : FileTree (List Char) :=
  .ofNodes [(["vfs"], .dir), (["vfs", "r"], .dir), (["vfs", "r", "a.txt"], .file "draft".toList),
    (["vfs", "r", "a.txt.repair.tmp"], .file "notes".toList),
    (["vfsMeta"], .dir), (["vfsMeta", "r"], .dir), (["vfsMeta", "r", "a.txt"], .file desynced.dumps),
    (["vfsMeta", "r", "a.txt.repair.tmp"], .file clean.dumps)] (by decide)

/-- A file system that refuses nothing. -/
def granted : Io (List Char) where
  scan := ⟨true, fun _ => true, fun _ => true, fun _ => 4096⟩
  removes := fun _ => true
  repairs := fun _ => .replaced
  data := fun _ => ⟨true, fun _ _ => true, true, .unopened, noTreeMove⟩
  «meta» := fun _ => ⟨true, fun _ _ => true, true, .unopened, noTreeMove⟩

/-- The repair of the one entry leaves the other without its metadata. -/
theorem a_repair_takes_metadata :
    ¬∀ (contents : Contents (List Char)) (io : Io (List Char)) (lookup : Unit → Path → Status × Unit)
      (t : FileTree (List Char)), Framed contents io .plain lookup t () := by
  intro h
  have hclean : readEntry texts granted.scan.open beside ["r", "a.txt.repair.tmp"] = none := by decide
  have hsound : Sound texts granted.scan beside ["r", "a.txt.repair.tmp"] clean.dumps := by
    refine ⟨rfl, ⟨_, texts.json_dump clean⟩, fun e he => ?_⟩
    rw [hclean] at he
    cases he
  have hgone : (reconcileCache texts granted .plain (fun (_ : Unit) _ => (.absent, ())) beside ()).cache.get?
      (metaPath ["r", "a.txt.repair.tmp"]) = none := by decide
  have hsame := ((h texts granted (fun _ _ => (.absent, ())) beside).unchanged _ _ hsound).1
  rw [hgone, hsound.there] at hsame
  cases hsame

end Errand.Gateway.ReconcileFrame

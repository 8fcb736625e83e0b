import Errand.Gateway.DirtyEntry
import Errand.Lib.Machine
import Mathlib.Algebra.Order.Field.Rat
import Mathlib.Tactic.Linarith

/-
  Errand.Gateway.WriteBack — the write-back monitor of the workspace gateway
  (`WriteBackMonitor`, `collect_health_stats`; workspace-gateway/refresher.py).

  A health cycle is an event: the clock, the counters of `vfs/stats`, the scan of the cache
  (none if it failed) and what `operations/stat` answers for each path. Times are rational.
  What is only logged is left out, the fingerprints with it; `recorded` holds the paths of
  which the last cycle recorded a mismatch.

  Proved:
  - `watch_track`: what the monitor holds of a path is what its own history makes of it,
    whatever the other paths do (`follow`).
  - `stalled_write_is_reported`: a path that stays dirty is reported once it is overdue, and
    none before its grace period is over.
-/

namespace Errand.Gateway

open Errand.Lib

/-! ## The monitor -/

structure MonitorConfig where
  stuckGraceSeconds : ℚ
  maxDirtyAgeSeconds : ℚ
  verifyUploadSize : Bool

def MonitorConfig.overdue (cfg : MonitorConfig) : ℚ := max (10 * cfg.stuckGraceSeconds) 300

/-- The counters of `vfs/stats`; none where the call failed. -/
structure VfsStats where
  uploadsQueued : Option Int
  uploadsInProgress : Option Int
  erroredFiles : Option Int

namespace VfsStats

def queueStateKnown (stats : VfsStats) : Bool := stats.uploadsQueued.isSome && stats.uploadsInProgress.isSome

def queueIdle (stats : VfsStats) : Bool :=
  match stats.uploadsQueued, stats.uploadsInProgress with
  | some queued, some inProgress => queued + inProgress == 0
  | _, _ => false

def errored (stats : VfsStats) : Int := stats.erroredFiles.getD 0

end VfsStats

structure Cycle where
  now : ℚ
  stats : VfsStats
  scan : Option (List DirtyEntry)
  /-- The size in the record of the object behind a path; none without a record. -/
  published : Path → Option (Option Int)

structure Mismatch where
  expectedSize : Nat
  publishedSize : Option Int
  deriving DecidableEq, Repr

structure Monitor where
  firstSeenDirty : List (Path × ℚ)
  everQueued : List (Path × Bool)
  lastDataSize : List (Path × Nat)
  sizeStable : List (Path × Bool)
  sizeMismatches : List (Path × Mismatch)
  recorded : List Path

inductive StuckReason where
  | orphanedDirtyEntry
  | dirtyEntryPinnedByHandle
  | dirtyEntryNotProgressing
  | dirtyEntryOverdue
  deriving DecidableEq, Repr

inductive HealthError where
  | stuck (path : Path) (reason : StuckReason) (dirtyAgeSeconds : ℚ)
  | uploadSizeMismatch (path : Path) (mismatch : Mismatch)
  | erroredUploads (erroredFiles : Int) (candidatePaths : List Path)
  | cacheScanFailed

inductive WriteBackState where
  | ok
  | degraded
  deriving DecidableEq, Repr

structure Health where
  writeBackState : WriteBackState
  stats : VfsStats
  /-- None if the scan failed. -/
  dirtyEntries : Option Nat
  stuckEntries : List Path
  sizeMismatches : List Path
  oldestDirtyAgeSeconds : ℚ
  errors : List HealthError

/-! ## Completed uploads -/

/-- `_MAX_TRACKED_MISMATCHES`. -/
def maxTrackedMismatches : Nat := 50

inductive UploadCheck where
  | unverified
  | clean
  | mismatch (found : Mismatch)
  deriving DecidableEq, Repr

def checkUpload (cfg : MonitorConfig) (expected : Option Nat) (stable : Bool) (published : Option (Option Int)) :
    UploadCheck :=
  if !cfg.verifyUploadSize then .unverified
  else
    match expected with
    | none => .unverified
    | some expected =>
      if !stable then .unverified
      else
        match published with
        | none => .unverified
        | some actual => if actual = some (expected : Int) then .clean else .mismatch ⟨expected, actual⟩

namespace Monitor

def verifyCompletedUpload (cfg : MonitorConfig) (c : Cycle) (m : Monitor) (path : Path) : Monitor :=
  match checkUpload cfg (Dict.get? m.lastDataSize path) ((Dict.get? m.sizeStable path).getD false) (c.published path) with
  | .unverified => m
  | .clean => { m with sizeMismatches := Dict.pop m.sizeMismatches path }
  | .mismatch found =>
    let held := Dict.set m.sizeMismatches path found
    -- the oldest go first
    { m with sizeMismatches := held.drop (held.length - maxTrackedMismatches), recorded := m.recorded ++ [path] }

def forget (m : Monitor) (path : Path) : Monitor :=
  { m with
    firstSeenDirty := Dict.pop m.firstSeenDirty path
    everQueued := Dict.pop m.everQueued path
    lastDataSize := Dict.pop m.lastDataSize path
    sizeStable := Dict.pop m.sizeStable path }

/-- One round of the loop over the paths that were dirty. -/
def settle (cfg : MonitorConfig) (c : Cycle) (current : List (Path × DirtyEntry)) (m : Monitor) (path : Path) : Monitor :=
  if (Dict.get? current path).isSome then m else (m.verifyCompletedUpload cfg c path).forget path

/-! ## Dirty entries -/

/-- What a cycle notes of an entry that is dirty. -/
def observe (c : Cycle) (m : Monitor) (e : DirtyEntry) : Monitor :=
  let m := { m with firstSeenDirty := Dict.setDefault m.firstSeenDirty e.path c.now }
  let m := match e.dataSize with
    | some size =>
      { m with
        sizeStable := Dict.set m.sizeStable e.path (decide (Dict.get? m.lastDataSize e.path = some size))
        lastDataSize := Dict.set m.lastDataSize e.path size }
    | none => m
  if c.stats.queueStateKnown && !c.stats.queueIdle then { m with everQueued := Dict.set m.everQueued e.path true } else m

end Monitor

def classify (cfg : MonitorConfig) (stats : VfsStats) (age : ℚ) (everQueued : Bool) (e : DirtyEntry) :
    Option StuckReason :=
  if age < cfg.stuckGraceSeconds then none
  else if e.isOrphaned then some .orphanedDirtyEntry
  else if age ≥ cfg.maxDirtyAgeSeconds && !everQueued then some .dirtyEntryPinnedByHandle
  else if stats.queueIdle then some .dirtyEntryNotProgressing
  else if age ≥ cfg.overdue then some .dirtyEntryOverdue
  else none

structure Visit where
  monitor : Monitor
  stuck : List (Path × StuckReason × ℚ)
  oldestAge : ℚ

/-- One round of the loop over the dirty entries. -/
def visit (cfg : MonitorConfig) (c : Cycle) (v : Visit) (e : DirtyEntry) : Visit :=
  let m := v.monitor.observe c e
  let age := c.now - (Dict.get? m.firstSeenDirty e.path).getD c.now
  let stuck := match classify cfg c.stats age ((Dict.get? m.everQueued e.path).getD false) e with
    | some reason => v.stuck ++ [(e.path, reason, age)]
    | none => v.stuck
  ⟨m, stuck, max v.oldestAge age⟩

def currentEntries (entries : List DirtyEntry) : List (Path × DirtyEntry) :=
  Dict.ofItems (entries.map fun e => (e.path, e))

def evaluate (cfg : MonitorConfig) (c : Cycle) (m : Monitor) (entries : List DirtyEntry) : Monitor × Health :=
  let current := currentEntries entries
  let m := (Dict.keys m.firstSeenDirty).foldl (Monitor.settle cfg c current) { m with recorded := [] }
  let v := (sorted (current.map Prod.snd)).foldl (visit cfg c) ⟨m, [], 0⟩
  let m := v.monitor
  let mismatchPaths := sortedPaths (Dict.keys m.sizeMismatches)
  let errored := c.stats.errored
  let errors := v.stuck.map (fun s => HealthError.stuck s.1 s.2.1 s.2.2) ++
    mismatchPaths.filterMap (fun p => (Dict.get? m.sizeMismatches p).map (HealthError.uploadSizeMismatch p)) ++
    (if errored > 0 then [HealthError.erroredUploads errored (sortedPaths (Dict.keys current))] else [])
  let degraded := !v.stuck.isEmpty || errored > 0 || !m.sizeMismatches.isEmpty
  (m, {
    writeBackState := if degraded then .degraded else .ok
    stats := c.stats
    dirtyEntries := some current.length
    stuckEntries := sortedPaths (v.stuck.map Prod.fst)
    sizeMismatches := mismatchPaths
    oldestDirtyAgeSeconds := v.oldestAge
    errors := errors })

def scanUnavailable (c : Cycle) : Health where
  writeBackState := .degraded
  stats := c.stats
  dirtyEntries := none
  stuckEntries := []
  sizeMismatches := []
  oldestDirtyAgeSeconds := 0
  errors := [.cacheScanFailed]

def collectHealthStats (cfg : MonitorConfig) (m : Monitor) (c : Cycle) : Monitor × Health :=
  match c.scan with
  | none => ({ m with recorded := [] }, scanUnavailable c)
  | some entries => evaluate cfg c m entries

/-! ## Runs -/

structure WatchState where
  monitor : Monitor
  health : Option Health
  clock : Option ℚ

def startState : WatchState := ⟨⟨[], [], [], [], [], []⟩, none, none⟩

/-- The monitor through health cycles, by a clock that does not go back. -/
def watch (cfg : MonitorConfig) : Machine WatchState Cycle where
  init := fun s => s = startState
  step := fun s c =>
    if s.clock.all (· ≤ c.now) then
      let (m, health) := collectHealthStats cfg s.monitor c
      some ⟨m, some health, some c.now⟩
    else none

/-! ## One path's history -/

/-- What the monitor holds of one path. -/
structure Track where
  firstSeen : Option ℚ
  everQueued : Option Bool
  lastSize : Option Nat
  stable : Option Bool

def Track.unseen : Track := ⟨none, none, none, none⟩

def Monitor.track (m : Monitor) (path : Path) : Track :=
  ⟨Dict.get? m.firstSeenDirty path, Dict.get? m.everQueued path, Dict.get? m.lastDataSize path,
    Dict.get? m.sizeStable path⟩

def Track.observe (c : Cycle) (t : Track) (e : DirtyEntry) : Track where
  firstSeen := some (t.firstSeen.getD c.now)
  everQueued := if c.stats.queueStateKnown && !c.stats.queueIdle then some true else t.everQueued
  lastSize := e.dataSize.or t.lastSize
  stable := match e.dataSize with
    | some size => some (decide (t.lastSize = some size))
    | none => t.stable

/-- The entry of a path in a scan, if the scan did not fail. -/
def Cycle.sighted (c : Cycle) (path : Path) : Option (Option DirtyEntry) :=
  c.scan.map fun entries => Dict.get? (currentEntries entries) path

/-- What a path's history makes of it, cycle by cycle. -/
def follow (path : Path) (t : Track) (c : Cycle) : Track :=
  match c.sighted path with
  | none => t
  | some none => .unseen
  | some (some e) => t.observe c e

theorem track_verify (cfg : MonitorConfig) (c : Cycle) (m : Monitor) (q p : Path) :
    (m.verifyCompletedUpload cfg c q).track p = m.track p := by
  unfold Monitor.verifyCompletedUpload
  split
  · rfl
  · rfl
  · rfl

theorem track_forget (m : Monitor) (q p : Path) : (m.forget q).track p = if q = p then .unseen else m.track p := by
  unfold Monitor.track Monitor.forget
  split
  · rename_i h
    subst h
    simp only [Dict.get?_pop_self]
    rfl
  · rename_i h
    simp only [Dict.get?_pop_other _ h]

theorem track_settle (cfg : MonitorConfig) (c : Cycle) (current : List (Path × DirtyEntry)) (m : Monitor) (q p : Path) :
    (m.settle cfg c current q).track p = if q = p ∧ Dict.get? current p = none then .unseen else m.track p := by
  unfold Monitor.settle
  split
  · rename_i h
    rw [if_neg]
    intro hentry
    rcases hentry with ⟨rfl, hnone⟩
    rw [hnone] at h
    cases h
  · rename_i h
    rw [track_forget, track_verify]
    by_cases e : q = p
    · subst e
      rw [if_pos rfl, if_pos ⟨rfl, Option.not_isSome_iff_eq_none.mp h⟩]
    · rw [if_neg e, if_neg fun hc => e hc.1]

theorem track_settles (cfg : MonitorConfig) (c : Cycle) (current : List (Path × DirtyEntry)) (p : Path) (ks : List Path) :
    ∀ m : Monitor, (ks.foldl (Monitor.settle cfg c current) m).track p =
      if p ∈ ks ∧ Dict.get? current p = none then .unseen else m.track p := by
  induction ks with
  | nil => intro m; simp
  | cons q ks ih =>
    intro m
    rw [List.foldl_cons, ih, track_settle]
    by_cases hc : Dict.get? current p = none
    · by_cases hq : q = p
      · simp [hq, hc]
      · simp [hq, hc, Ne.symm hq]
    · simp [hc]

theorem track_observe (c : Cycle) (m : Monitor) (e : DirtyEntry) (p : Path) :
    (m.observe c e).track p = if e.path = p then (m.track p).observe c e else m.track p := by
  by_cases h : e.path = p
  · subst h
    rw [if_pos rfl]
    unfold Monitor.observe Monitor.track Track.observe
    cases e.dataSize with
    | none =>
      cases c.stats.queueStateKnown && !c.stats.queueIdle with
      | true => simp [Dict.get?_setDefault]
      | false => simp [Dict.get?_setDefault]
    | some size =>
      cases c.stats.queueStateKnown && !c.stats.queueIdle with
      | true => simp [Dict.get?_setDefault]
      | false => simp [Dict.get?_setDefault]
  · rw [if_neg h]
    unfold Monitor.observe Monitor.track
    cases e.dataSize with
    | none =>
      cases c.stats.queueStateKnown && !c.stats.queueIdle with
      | true => simp [Dict.get?_setDefault, Dict.get?_set_other _ _ h, h]
      | false => simp [Dict.get?_setDefault, h]
    | some size =>
      cases c.stats.queueStateKnown && !c.stats.queueIdle with
      | true => simp [Dict.get?_setDefault, Dict.get?_set_other _ _ h, h]
      | false => simp [Dict.get?_setDefault, Dict.get?_set_other _ _ h, h]

/-- The loop leaves a path that is not dirty alone. -/
theorem track_visits_other {cfg : MonitorConfig} {c : Cycle} {p : Path} {es : List DirtyEntry}
    (h : ∀ e ∈ es, e.path ≠ p) : ∀ v : Visit, (es.foldl (visit cfg c) v).monitor.track p = v.monitor.track p := by
  induction es with
  | nil => intro v; rfl
  | cons e es ih =>
    intro v
    rw [List.foldl_cons, ih fun f hf => h f (List.mem_cons_of_mem _ hf)]
    exact (track_observe c v.monitor e p).trans (if_neg (h e (List.mem_cons_self ..)))

/-- A path that is dirty is observed once. -/
theorem track_visits_self {cfg : MonitorConfig} {c : Cycle} {e : DirtyEntry} {es : List DirtyEntry}
    (hnodup : (es.map DirtyEntry.path).Nodup) (he : e ∈ es) :
    ∀ v : Visit, (es.foldl (visit cfg c) v).monitor.track e.path = (v.monitor.track e.path).observe c e := by
  induction es with
  | nil => cases he
  | cons f es ih =>
    intro v
    have ⟨hf, hes⟩ := List.nodup_cons.mp hnodup
    rw [List.foldl_cons]
    rcases List.mem_cons.mp he with rfl | he
    · rw [track_visits_other fun g hg hgp => hf (List.mem_map.mpr ⟨g, hg, hgp⟩)]
      exact (track_observe c v.monitor e e.path).trans (if_pos rfl)
    · rw [ih hes he]
      have hne : f.path ≠ e.path := fun h => hf (List.mem_map.mpr ⟨e, he, h.symm⟩)
      exact congrArg (Track.observe c · e) ((track_observe c v.monitor f e.path).trans (if_neg hne))

theorem current_path {entries : List DirtyEntry} {item : Path × DirtyEntry} (h : item ∈ currentEntries entries) :
    item.2.path = item.1 := by
  obtain ⟨e, -, rfl⟩ := List.mem_map.mp (Dict.mem_of_mem_ofItems h)
  rfl

theorem current_nodup (entries : List DirtyEntry) :
    ((sorted ((currentEntries entries).map Prod.snd)).map DirtyEntry.path).Nodup := by
  have hperm : (sorted ((currentEntries entries).map Prod.snd)).Perm ((currentEntries entries).map Prod.snd) :=
    List.perm_insertionSort ..
  rw [(hperm.map DirtyEntry.path).nodup_iff, List.map_map]
  have hkeys : (currentEntries entries).map (DirtyEntry.path ∘ Prod.snd) = Dict.keys (currentEntries entries) :=
    List.map_congr_left fun item hi => current_path hi
  rw [hkeys]
  exact Dict.nodup_ofItems _

theorem mem_current {entries : List DirtyEntry} {p : Path} {e : DirtyEntry}
    (h : Dict.get? (currentEntries entries) p = some e) :
    e ∈ sorted ((currentEntries entries).map Prod.snd) ∧ e.path = p := by
  have hmem := Dict.mem_of_get? h
  exact ⟨mem_sorted.mpr (List.mem_map.mpr ⟨_, hmem, rfl⟩), current_path hmem⟩

theorem not_mem_current {entries : List DirtyEntry} {p : Path} (h : Dict.get? (currentEntries entries) p = none) :
    ∀ e ∈ sorted ((currentEntries entries).map Prod.snd), e.path ≠ p := by
  intro e he hp
  obtain ⟨item, hi, rfl⟩ := List.mem_map.mp (mem_sorted.mp he)
  have hkey : p ∈ Dict.keys (currentEntries entries) :=
    List.mem_map.mpr ⟨item, hi, (current_path hi).symm.trans hp⟩
  rw [Dict.mem_keys_iff, h] at hkey
  cases hkey

/-- A path that is not tracked has left nothing behind. -/
def Tidy (t : Track) : Prop := t.firstSeen = none → t = .unseen

theorem collect_track {cfg : MonitorConfig} {m : Monitor} {c : Cycle} {p : Path} (ht : Tidy (m.track p)) :
    (collectHealthStats cfg m c).1.track p = follow p (m.track p) c := by
  unfold collectHealthStats follow Cycle.sighted
  cases c.scan with
  | none => rfl
  | some entries =>
    simp only [Option.map_some, evaluate]
    cases hc : Dict.get? (currentEntries entries) p with
    | none =>
      rw [track_visits_other (not_mem_current hc), track_settles]
      split
      · rfl
      · rename_i h
        have hnot : p ∉ Dict.keys m.firstSeenDirty := fun hp => h ⟨hp, hc⟩
        rw [Dict.mem_keys_iff, Option.not_isSome_iff_eq_none] at hnot
        exact ht hnot
    | some e =>
      obtain ⟨hmem, rfl⟩ := mem_current hc
      rw [track_visits_self (current_nodup entries) hmem, track_settles, if_neg (by simp [hc])]
      rfl

theorem follow_tidy {p : Path} {t : Track} {c : Cycle} (h : Tidy t) : Tidy (follow p t c) := by
  unfold follow
  split
  · exact h
  · exact fun _ => rfl
  · intro hnone
    cases hnone

/-- What the monitor holds of a path is what the path's own history makes of it. -/
theorem watch_track {cfg : MonitorConfig} {p : Path} {cs : List Cycle} : ∀ {s s' : WatchState}, Tidy (s.monitor.track p) →
    (watch cfg).exec s cs = some s' →
    s'.monitor.track p = cs.foldl (follow p) (s.monitor.track p) ∧ Tidy (s'.monitor.track p) := by
  induction cs with
  | nil =>
    intro s s' ht h
    cases h
    exact ⟨rfl, ht⟩
  | cons c cs ih =>
    intro s s' ht h
    obtain ⟨u, hu, h⟩ := Option.bind_eq_some_iff.mp h
    have hstep : u.monitor.track p = follow p (s.monitor.track p) c := by
      change (if _ then _ else _) = some u at hu
      split at hu
      · cases hu
        exact collect_track ht
      · cases hu
    have htidy : Tidy (u.monitor.track p) := hstep ▸ follow_tidy ht
    obtain ⟨htrack, htidy'⟩ := ih htidy h
    exact ⟨by rw [htrack, hstep, List.foldl_cons], htidy'⟩

/-! ## Stuck entries -/

/-- Why an entry is stuck in a cycle, from what was held of its path before. -/
def stuckReason (cfg : MonitorConfig) (c : Cycle) (t : Track) (e : DirtyEntry) : Option StuckReason :=
  classify cfg c.stats (c.now - (t.observe c e).firstSeen.getD c.now) ((t.observe c e).everQueued.getD false) e

theorem visit_stuck (cfg : MonitorConfig) (c : Cycle) (v : Visit) (e : DirtyEntry) (p : Path) :
    p ∈ (visit cfg c v e).stuck.map Prod.fst ↔
      p ∈ v.stuck.map Prod.fst ∨ e.path = p ∧ (stuckReason cfg c (v.monitor.track e.path) e).isSome = true := by
  have htrack := (track_observe c v.monitor e e.path).trans (if_pos rfl)
  have hreason : classify cfg c.stats (c.now - (Dict.get? (v.monitor.observe c e).firstSeenDirty e.path).getD c.now)
      ((Dict.get? (v.monitor.observe c e).everQueued e.path).getD false) e =
        stuckReason cfg c (v.monitor.track e.path) e := by
    rw [stuckReason, ← htrack]
    rfl
  unfold visit
  simp only [hreason]
  cases stuckReason cfg c (v.monitor.track e.path) e with
  | none => simp
  | some reason => simp [eq_comm]

theorem mem_stuck_visits {cfg : MonitorConfig} {c : Cycle} {p : Path} {es : List DirtyEntry}
    (hnodup : (es.map DirtyEntry.path).Nodup) : ∀ v : Visit,
    (p ∈ (es.foldl (visit cfg c) v).stuck.map Prod.fst ↔ p ∈ v.stuck.map Prod.fst ∨
      ∃ e ∈ es, e.path = p ∧ (stuckReason cfg c (v.monitor.track p) e).isSome = true) := by
  induction es with
  | nil => intro v; simp
  | cons f es ih =>
    intro v
    have ⟨hf, hes⟩ := List.nodup_cons.mp hnodup
    rw [List.foldl_cons, ih hes, visit_stuck, or_assoc]
    by_cases hp : f.path = p
    · subst hp
      -- no other entry has its path
      have hothers : ∀ e ∈ es, e.path ≠ f.path := fun e he h => hf (List.mem_map.mpr ⟨e, he, h⟩)
      refine or_congr_right ?_
      constructor
      · intro hheld
        rcases hheld with h | ⟨e, he, hpath, -⟩
        · exact ⟨f, List.mem_cons_self .., h⟩
        · exact absurd hpath (hothers e he)
      · intro hheld
        rcases hheld with ⟨e, he, hpath, h⟩
        rcases List.mem_cons.mp he with rfl | he
        · exact Or.inl ⟨rfl, h⟩
        · exact absurd hpath (hothers e he)
    · have hsame : (visit cfg c v f).monitor.track p = v.monitor.track p :=
        (track_observe c v.monitor f p).trans (if_neg hp)
      rw [hsame]
      simp [hp]

theorem mem_stuckEntries {cfg : MonitorConfig} {m : Monitor} {c : Cycle} {entries : List DirtyEntry} {p : Path} :
    p ∈ (evaluate cfg c m entries).2.stuckEntries ↔
      ∃ e, Dict.get? (currentEntries entries) p = some e ∧ (stuckReason cfg c (m.track p) e).isSome = true := by
  simp only [evaluate, mem_sortedPaths]
  rw [mem_stuck_visits (current_nodup entries), track_settles]
  simp only [List.map_nil, List.not_mem_nil, false_or]
  constructor
  · intro hheld
    rcases hheld with ⟨e, he, hpath, h⟩
    cases hc : Dict.get? (currentEntries entries) p with
    | none => exact absurd hpath (not_mem_current hc e he)
    | some e' =>
      rw [if_neg (by simp [hc])] at h
      obtain ⟨he', hpath'⟩ := mem_current hc
      have hsame : e = e' := List.inj_on_of_nodup_map (current_nodup entries) he he' (hpath.trans hpath'.symm)
      exact ⟨e', rfl, hsame ▸ h⟩
  · intro hheld
    rcases hheld with ⟨e, hc, h⟩
    obtain ⟨he, hpath⟩ := mem_current hc
    exact ⟨e, he, hpath, by rw [if_neg (by simp [hc])]; exact h⟩

theorem stuck_after_grace {cfg : MonitorConfig} {stats : VfsStats} {age : ℚ} {queued : Bool} {e : DirtyEntry}
    (h : (classify cfg stats age queued e).isSome = true) : cfg.stuckGraceSeconds ≤ age := by
  unfold classify at h
  split at h
  · cases h
  · rename_i hage
    exact not_lt.mp hage

theorem stuck_when_overdue {cfg : MonitorConfig} {stats : VfsStats} {age : ℚ} {queued : Bool} {e : DirtyEntry}
    (h : cfg.overdue ≤ age) : (classify cfg stats age queued e).isSome = true := by
  have hten : 10 * cfg.stuckGraceSeconds ≤ age := (le_max_left ..).trans h
  have hmin : 300 ≤ age := (le_max_right ..).trans h
  have hgrace : ¬age < cfg.stuckGraceSeconds := by
    intro hlt
    linarith
  unfold classify
  rw [if_neg hgrace]
  split
  · rfl
  · split
    · rfl
    · split
      · rfl
      · rfl

/-! ## Ages -/

/-- The scan did not fail, and shows the path dirty. -/
def Cycle.Shows (c : Cycle) (path : Path) : Prop := ∃ entries, c.scan = some entries ∧ ∃ e ∈ entries, e.path = path

/-- The scan failed, or shows the path dirty. -/
def Cycle.StillDirty (c : Cycle) (path : Path) : Prop := c.scan = none ∨ c.Shows path

theorem shows_iff {c : Cycle} {path : Path} : c.Shows path ↔ ∃ e, c.sighted path = some (some e) := by
  unfold Cycle.Shows Cycle.sighted
  cases c.scan with
  | none => simp
  | some entries =>
    have hkeys : path ∈ Dict.keys (currentEntries entries) ↔ ∃ e ∈ entries, e.path = path := by
      rw [currentEntries, Dict.mem_keys_ofItems]
      simp [Dict.keys]
    simp only [Option.some.injEq, exists_eq_left', Option.map_some]
    rw [← hkeys, Dict.mem_keys_iff, Option.isSome_iff_exists]

theorem stillDirty_iff {c : Cycle} {path : Path} : c.StillDirty path ↔ c.sighted path ≠ some none := by
  unfold Cycle.StillDirty
  rw [shows_iff]
  unfold Cycle.sighted
  cases c.scan with
  | none => simp
  | some entries =>
    cases hc : Dict.get? (currentEntries entries) path with
    | none => simp [hc]
    | some e => simp [hc]

/-- A path is first seen in a cycle that shows it, and in each since it is still dirty. -/
theorem firstSeen_sighting {p : Path} {t0 : ℚ} (cs : List Cycle) :
    (cs.foldl (follow p) .unseen).firstSeen = some t0 →
      ∃ before first later, cs = before ++ first :: later ∧ first.Shows p ∧ (∀ d ∈ later, d.StillDirty p) ∧
        t0 = first.now := by
  induction cs using List.reverseRecOn with
  | nil =>
    intro h
    cases h
  | append_singleton cs c ih =>
    intro h
    rw [List.foldl_concat] at h
    have extend : (cs.foldl (follow p) .unseen).firstSeen = some t0 → c.StillDirty p →
        ∃ before first later, cs ++ [c] = before ++ first :: later ∧ first.Shows p ∧ (∀ d ∈ later, d.StillDirty p) ∧
          t0 = first.now := by
      intro hseen hc
      obtain ⟨before, first, later, rfl, hshows, hstill, ht⟩ := ih hseen
      refine ⟨before, first, later ++ [c], by simp, hshows, fun d hd => ?_, ht⟩
      rcases List.mem_append.mp hd with hd | hd
      · exact hstill d hd
      · rw [List.mem_singleton.mp hd]
        exact hc
    rw [follow] at h
    split at h
    · rename_i hs
      exact extend h (stillDirty_iff.mpr (by rw [hs]; simp))
    · cases h
    · rename_i e hs
      have hshows : c.Shows p := shows_iff.mpr ⟨e, hs⟩
      rw [Track.observe] at h
      cases hseen : (cs.foldl (follow p) .unseen).firstSeen with
      | some t =>
        rw [hseen] at h
        exact extend (hseen.trans h) (Or.inr hshows)
      | none =>
        rw [hseen] at h
        exact ⟨cs, c, [], rfl, hshows, nofun, (Option.some.inj h).symm⟩

/-- While it is still dirty, the time a path was first seen stays. -/
theorem firstSeen_stays {p : Path} {t0 : ℚ} {later : List Cycle} (hstill : ∀ d ∈ later, d.StillDirty p) :
    ∀ {t : Track}, t.firstSeen = some t0 → (later.foldl (follow p) t).firstSeen = some t0 := by
  induction later with
  | nil => intro t h; exact h
  | cons d later ih =>
    intro t h
    refine ih (fun f hf => hstill f (List.mem_cons_of_mem _ hf)) ?_
    have hd := stillDirty_iff.mp (hstill d (List.mem_cons_self ..))
    unfold follow
    split
    · exact h
    · rename_i hs
      exact absurd hs hd
    · simp [Track.observe, h]

theorem watch_ordered {cfg : MonitorConfig} {cs : List Cycle} : ∀ {s s' : WatchState}, (watch cfg).exec s cs = some s' →
    (∀ c ∈ cs, s.clock.all (· ≤ c.now) = true) ∧ cs.Pairwise fun c d => c.now ≤ d.now := by
  induction cs with
  | nil => intro s s' _; simp
  | cons c cs ih =>
    intro s s' h
    obtain ⟨u, hu, h⟩ := Option.bind_eq_some_iff.mp h
    change (if _ then _ else _) = some u at hu
    split at hu
    · rename_i hclock
      cases hu
      obtain ⟨hlater, hpair⟩ := ih h
      have hle : ∀ d ∈ cs, c.now ≤ d.now := fun d hd => by simpa using hlater d hd
      refine ⟨fun d hd => ?_, List.pairwise_cons.mpr ⟨hle, hpair⟩⟩
      rcases List.mem_cons.mp hd with rfl | hd
      · exact hclock
      · cases hs : s.clock with
        | none => rfl
        | some t =>
          rw [hs] at hclock
          have htc : t ≤ c.now := by simpa using hclock
          simpa using htc.trans (hle d hd)
    · cases hu

theorem degraded_of_stuck {cfg : MonitorConfig} {m : Monitor} {c : Cycle} {entries : List DirtyEntry} {p : Path}
    (h : p ∈ (evaluate cfg c m entries).2.stuckEntries) : (evaluate cfg c m entries).2.writeBackState = .degraded := by
  simp only [evaluate, mem_sortedPaths] at h ⊢
  generalize (List.foldl (visit cfg c) _ _).stuck = stuck at h ⊢
  cases stuck with
  | nil => cases h
  | cons x stuck => rfl

theorem watch_step {cfg : MonitorConfig} {s s' : WatchState} {c : Cycle} (h : (watch cfg).step s c = some s') :
    s'.monitor = (collectHealthStats cfg s.monitor c).1 ∧ s'.health = some (collectHealthStats cfg s.monitor c).2 := by
  change (if _ then _ else _) = some s' at h
  split at h
  · cases h
    exact ⟨rfl, rfl⟩
  · cases h

/-- However scans fail and whatever the queue does: once a path that stays dirty is overdue
    every cycle is degraded and, if its scan did not fail, names it; and a path that is
    reported has been dirty for the grace period. -/
theorem stalled_write_is_reported {cfg : MonitorConfig} {cs : List Cycle} {c : Cycle} {s : WatchState}
    (h : (watch cfg).exec startState (cs ++ [c]) = some s) (path : Path) :
    ∃ health, s.health = some health ∧
      (∀ before first later, cs = before ++ first :: later → first.Shows path →
        (∀ d ∈ later ++ [c], d.StillDirty path) → cfg.overdue ≤ c.now - first.now →
          health.writeBackState = .degraded ∧ (c.scan ≠ none → path ∈ health.stuckEntries)) ∧
      (path ∈ health.stuckEntries → ∃ before first later, cs ++ [c] = before ++ first :: later ∧ first.Shows path ∧
        (∀ d ∈ later, d.StillDirty path) ∧ cfg.stuckGraceSeconds ≤ c.now - first.now) := by
  obtain ⟨-, hordered⟩ := watch_ordered h
  obtain ⟨u, hu, hstep⟩ := Machine.exec_concat _ h
  obtain ⟨htrack, -⟩ := watch_track (p := path) (fun _ => rfl) hu
  rw [show startState.monitor.track path = .unseen from rfl] at htrack
  obtain ⟨-, hhealth⟩ := watch_step hstep
  refine ⟨_, hhealth, ?_, ?_⟩
  · intro before first later hcs hshows hstill hage
    subst hcs
    have hc : c.StillDirty path := hstill c (by simp)
    cases hscan : c.scan with
    | none =>
      rw [collectHealthStats, hscan]
      exact ⟨rfl, fun hne => absurd rfl hne⟩
    | some entries =>
      obtain ⟨e, he⟩ := shows_iff.mp (hc.resolve_left (by rw [hscan]; simp))
      have hget : Dict.get? (currentEntries entries) path = some e := by simpa [Cycle.sighted, hscan] using he
      -- it was first seen when it was sighted, or before
      obtain ⟨e₁, he₁⟩ := shows_iff.mp hshows
      obtain ⟨t0, ht0⟩ : ∃ t0, ((before ++ [first]).foldl (follow path) .unseen).firstSeen = some t0 := by
        rw [List.foldl_concat, follow, he₁]
        exact ⟨_, rfl⟩
      have hle : t0 ≤ first.now := by
        obtain ⟨b, f, l, hsplit, -, -, rfl⟩ := firstSeen_sighting _ ht0
        have hmem : f ∈ before ++ [first] := by rw [hsplit]; simp
        rcases List.mem_append.mp hmem with hb | hf
        · have hord : (before ++ (first :: later ++ [c])).Pairwise fun c d => c.now ≤ d.now := by simpa using hordered
          exact (List.pairwise_append.mp hord).2.2 f hb first (by simp)
        · rw [List.mem_singleton.mp hf]
      have hseen : (u.monitor.track path).firstSeen = some t0 := by
        rw [htrack, List.append_cons, List.foldl_append]
        exact firstSeen_stays (fun d hd => hstill d (List.mem_append_left _ hd)) ht0
      have hstuck : path ∈ (evaluate cfg c u.monitor entries).2.stuckEntries := by
        refine mem_stuckEntries.mpr ⟨e, hget, stuck_when_overdue ?_⟩
        rw [Track.observe, hseen, Option.getD_some, Option.getD_some]
        linarith
      rw [collectHealthStats, hscan]
      exact ⟨degraded_of_stuck hstuck, fun _ => hstuck⟩
  · intro hstuck
    cases hscan : c.scan with
    | none =>
      rw [collectHealthStats, hscan] at hstuck
      cases hstuck
    | some entries =>
      rw [collectHealthStats, hscan] at hstuck
      obtain ⟨e, hget, hreason⟩ := mem_stuckEntries.mp hstuck
      have hsighted : c.sighted path = some (some e) := by simp [Cycle.sighted, hscan, hget]
      have hseen : ((cs ++ [c]).foldl (follow path) .unseen).firstSeen =
          some (((u.monitor.track path).observe c e).firstSeen.getD c.now) := by
        rw [List.foldl_concat, follow, hsighted, ← htrack]
        rfl
      obtain ⟨before, first, later, hsplit, hshows, hstill, ht⟩ := firstSeen_sighting _ hseen
      refine ⟨before, first, later, hsplit, hshows, hstill, ?_⟩
      rw [← ht]
      exact stuck_after_grace hreason

/-- A write of `gdrive/a` that never gets uploaded while the queue is busy with others. -/
def stalledAt (now : ℚ) : Cycle where
  now := now
  stats := ⟨some 3, some 1, some 0⟩
  scan := some [⟨["gdrive", "a"], .obj [("Dirty", .bool true), ("Size", .int 9)], true, some 9⟩]
  published := fun _ => none

theorem a_stalled_write_is_named : ∃ s health,
    (watch ⟨30, 900, true⟩).exec startState ([stalledAt 0] ++ [stalledAt 300]) = some s ∧ s.health = some health ∧ health.writeBackState = .degraded ∧ ["gdrive", "a"] ∈ health.stuckEntries := by
  have hrun : ((watch ⟨30, 900, true⟩).exec startState ([stalledAt 0] ++ [stalledAt 300])).isSome = true := by decide
  obtain ⟨s, hs⟩ := Option.isSome_iff_exists.mp hrun
  obtain ⟨health, hhealth, hoverdue, -⟩ := stalled_write_is_reported hs ["gdrive", "a"]
  have hshows : ∀ t, (stalledAt t).Shows ["gdrive", "a"] := fun t => ⟨_, rfl, _, List.mem_singleton.mpr rfl, rfl⟩
  have hstill : ∀ d ∈ [] ++ [stalledAt 300], d.StillDirty ["gdrive", "a"] := by
    intro d hd
    rw [List.mem_singleton.mp hd]
    exact Or.inr (hshows 300)
  obtain ⟨hdegraded, hnamed⟩ := hoverdue [] (stalledAt 0) [] rfl (hshows 0) hstill
    (by norm_num [MonitorConfig.overdue, stalledAt])
  exact ⟨s, health, hs, hhealth, hdegraded, hnamed nofun⟩

end Errand.Gateway

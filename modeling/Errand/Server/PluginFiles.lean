import Errand.Lib.Machine
import Errand.Server.PluginTrees

/-
  Errand.Server.PluginFiles — installed plugins and their trees on disk
  (`install_plugin`, `update_plugin`, `uninstall_plugin` and `warm_plugin_caches` of
  `plugin_marketplace.py`; the routes of `plugin_routes.py` around them).

  A plugin's directory is computed anew at each use, from the name, the version and the scope,
  which is what its marketplace is called now, or `manual`. An install writes its row, and an
  update its version, when the tree is there. The disk may be lost with the container, and
  the server then fetches what the enabled plugins had.

  Each operation is a step, and what a fetch, a removal or a commit comes to is in its event.
  A request that is refused, or fails before it has changed anything, is no step.

  Proved:
  - `rows_with_their_trees`: in every run of steps that meet `Clean`, each row's directory holds the tree
    fetched for it at its version, or nothing while its fetch is pending; no two rows have one
    directory; and no step changes the files of a row it leaves as it was.
  - `a_rename_parts`: no renaming to another segment keeps an installed plugin and its files
    together.
  - `a_reinstall_loses_the_files`, `an_install_takes_the_files`: a failed install of what is
    there, and two names that are one segment.
-/

namespace Errand.Server.PluginFiles

open Errand.Lib
open PluginTrees

/-! ## The model -/

structure MarketplacePluginEntry where
  name : String
  version : Option String
  source : NormalizedSource
  deriving DecidableEq, Repr

structure Marketplace where
  name : String
  predefined : Bool
  /-- None as long as there is no valid one. -/
  cachedManifest : Option (List MarketplacePluginEntry)
  deriving DecidableEq, Repr

structure Plugin where
  marketplaceId : Option Nat
  pluginName : String
  sourceType : Option Kind
  installedVersion : String
  latestAvailableVersion : Option String
  enabled : Bool
  deriving DecidableEq, Repr

/-- A fetch of the startup that has not ended, with what was read for it; a plugin no longer
    in its manifest has no source. -/
structure Warm where
  source : Option NormalizedSource
  dir : Dir
  version : String
  deriving DecidableEq

structure St where
  marketplaces : List (Nat × Marketplace)
  plugins : List (Nat × Plugin)
  /-- The directories that are there and not empty. -/
  disk : List (Dir × Content)
  /-- `_warm_futures`, those not done. -/
  pending : List (Nat × Warm)
  nextId : Nat
  deriving DecidableEq

/-- `PluginInstallRequest`; the name of a direct install may be taken from its URL. -/
structure PluginInstallRequest where
  marketplaceId : Option Nat
  pluginName : String
  version : Option String
  sourceType : Option Kind
  ref : Option String
  deriving DecidableEq, Repr

inductive Event where
  /-- With the manifest of the first sync, if it succeeds. -/
  | createMarketplace (name : String) (synced : Option (List MarketplacePluginEntry))
  /-- A new name, a new source that syncs, or both. -/
  | patchMarketplace (m : Nat) (name : Option String) (synced : Option (List MarketplacePluginEntry))
  | deleteMarketplace (m : Nat)
  /-- `resync_marketplace`, or the poller at the marketplace. -/
  | sync (m : Nat) (synced : Option (List MarketplacePluginEntry))
  /-- `read` is whether the tree's manifest is one, `committed` whether the row is stored. -/
  | install (request : PluginInstallRequest) (fetch : Fetch) (read committed : Bool)
  | patchPlugin (p : Nat) (enabled : Bool)
  /-- `rest` is what stays of the old version's directory. -/
  | update (p : Nat) (fetch : Fetch) (read : Bool) (rest : Rest) (committed : Bool)
  | uninstall (p : Nat) (rest : Rest) (committed : Bool)
  /-- The server starts again, with its disk or without. -/
  | startup (kept : Bool)
  /-- The startup comes to a plugin. -/
  | warm (p : Nat) (fetch : Fetch)
  deriving DecidableEq, Repr

/-! ## The steps -/

/-- `_resolve_marketplace_plugin`. -/
def Marketplace.resolvePlugin (marketplace : Marketplace) (pluginName : String) : Option MarketplacePluginEntry :=
  (marketplace.cachedManifest.getD []).find? fun entry => entry.name = pluginName

/-- `version or fallback or "latest"`. -/
def effectiveVersion (version fallback : Option String) : String :=
  ((version.filter (· ≠ "")).or (fallback.filter (· ≠ ""))).getD "latest"

def marketplaceOf (s : St) (row : Plugin) : Option Marketplace := row.marketplaceId.bind (Dict.get? s.marketplaces)

def scopeOf (s : St) (row : Plugin) : String :=
  match marketplaceOf s row with
  | some marketplace => marketplace.name
  | none => "manual"

/-- The directory that the code looks up for a row. -/
def dirOf (s : St) (row : Plugin) : Dir := pluginInstallDir (scopeOf s row) row.pluginName row.installedVersion

/-- Where an update or the startup fetches a row's plugin from. -/
def sourceOf (s : St) (row : Plugin) : Option NormalizedSource :=
  match marketplaceOf s row with
  | some marketplace => (marketplace.resolvePlugin row.pluginName).map MarketplacePluginEntry.source
  | none => some ⟨row.sourceType, none⟩

/-- What an install is of: the source, the scope and the version. -/
structure Target where
  source : NormalizedSource
  scope : String
  version : String
  deriving DecidableEq, Repr

def targetOf (s : St) (request : PluginInstallRequest) : Option Target :=
  match request.marketplaceId with
  | some m =>
    match (Dict.get? s.marketplaces m).map fun mp => (mp, mp.resolvePlugin request.pluginName) with
    | some (marketplace, some entry) =>
      if request.pluginName = "" ∨ entry.source.kind = some .unsupported then none
      else some ⟨entry.source, marketplace.name, effectiveVersion request.version entry.version⟩
    | _ => none
  | none =>
    if request.sourceType ∈ [some .github, some .git, some .http, some .local] then
      some ⟨⟨request.sourceType, none⟩, "manual", effectiveVersion request.version request.ref⟩
    else none

/-- Whether a row has the marketplace and the name already (`uq_plugins_marketplace_name`,
    `uq_plugins_manual_name`). -/
def taken (s : St) (marketplaceId : Option Nat) (pluginName : String) : Bool :=
  s.plugins.any fun item => item.2.marketplaceId = marketplaceId && item.2.pluginName = pluginName

/-- Whether an install's row is stored. -/
def installs (s : St) (request : PluginInstallRequest) (source : NormalizedSource) (fetch : Fetch)
    (read committed : Bool) : Bool :=
  succeeds source fetch && read && committed && !taken s request.marketplaceId request.pluginName

/-- The row of an install. -/
def rowOf (request : PluginInstallRequest) (target : Target) : Plugin where
  marketplaceId := request.marketplaceId
  pluginName := request.pluginName
  sourceType := if request.marketplaceId.isSome then none else target.source.kind
  installedVersion := target.version
  latestAvailableVersion := some target.version
  enabled := false

/-- `install_plugin`. -/
def installed (request : PluginInstallRequest) (fetch : Fetch) (read committed : Bool) (target : Target)
    (s : St) : St :=
  let dir := pluginInstallDir target.scope request.pluginName target.version
  let disk := fetchPluginInto target.source dir (.tree s.nextId target.version) fetch s.disk
  if installs s request target.source fetch read committed then
    { s with
      disk := disk
      plugins := Dict.set s.plugins s.nextId (rowOf request target)
      nextId := s.nextId + 1 }
  else { s with disk := disk, nextId := s.nextId + 1 }

/-- `update_plugin`, from the fetch on. -/
def updated (p : Nat) (row : Plugin) (version : String) (source : NormalizedSource) (fetch : Fetch) (read : Bool)
    (rest : Rest) (committed : Bool) (s : St) : St :=
  let newDir := pluginInstallDir (scopeOf s row) row.pluginName version
  let oldDir := dirOf s row
  let disk := fetchPluginInto source newDir (.tree p version) fetch s.disk
  if succeeds source fetch && read then
    let disk := if oldDir ≠ newDir then remove oldDir rest disk else disk
    if committed then
      { s with disk := disk, plugins := Dict.set s.plugins p { row with installedVersion := version } }
    else { s with disk := disk }
  else { s with disk := disk }

/-- `uninstall_plugin`. -/
def uninstalled (p : Nat) (row : Plugin) (rest : Rest) (committed : Bool) (s : St) : St :=
  let disk := remove (dirOf s row) rest s.disk
  if committed then { s with disk := disk, plugins := Dict.pop s.plugins p } else { s with disk := disk }

/-- `update_latest_versions_from_manifest`, for one plugin. -/
def withLatest (entries : List MarketplacePluginEntry) (row : Plugin) : Plugin :=
  let byName := Dict.ofItems (entries.map fun entry => (entry.name, entry))
  match ((Dict.get? byName row.pluginName).bind MarketplacePluginEntry.version).filter (· ≠ "") with
  | some latest => { row with latestAvailableVersion := some latest }
  | none => row

/-- `ON DELETE SET NULL`. -/
def withoutMarketplace (m : Nat) (row : Plugin) : Plugin :=
  if row.marketplaceId = some m then { row with marketplaceId := none } else row

/-- The start of `warm_plugin_caches`. -/
def warmOf (s : St) (p : Nat) : Option Warm :=
  ((Dict.get? s.plugins p).filter Plugin.enabled).map fun row => ⟨sourceOf s row, dirOf s row, row.installedVersion⟩

/-- `warm`, for one plugin. -/
def warmed (p : Nat) (w : Warm) (fetch : Fetch) (s : St) : St :=
  if (Dict.get? s.disk w.dir).isSome then { s with pending := Dict.pop s.pending p }
  else
    match w.source with
    | some source =>
      { s with
        disk := fetchPluginInto source w.dir (.tree p w.version) fetch s.disk
        pending := Dict.pop s.pending p }
    | none => s

def named (s : St) (name : String) : Bool := s.marketplaces.any fun item => item.2.name = name

def step (s : St) : Event → Option St
  | .createMarketplace name synced =>
    if name = "" ∨ named s name then none
    else some { s with
      marketplaces := Dict.set s.marketplaces s.nextId ⟨name, false, synced⟩
      nextId := s.nextId + 1 }
  | .patchMarketplace m name synced =>
    match Dict.get? s.marketplaces m with
    | some marketplace =>
      if name.any fun name => name ≠ marketplace.name && named s name then none
      else some { s with
        marketplaces := Dict.set s.marketplaces m { marketplace with
          name := name.getD marketplace.name
          cachedManifest := synced.or marketplace.cachedManifest } }
    | none => none
  | .deleteMarketplace m =>
    match Dict.get? s.marketplaces m with
    | some marketplace =>
      if marketplace.predefined ∨
          s.plugins.any (fun item => item.2.marketplaceId = some m && taken s none item.2.pluginName) then none
      else some { s with
        marketplaces := Dict.pop s.marketplaces m
        plugins := Dict.mapValues (withoutMarketplace m) s.plugins }
    | none => none
  | .sync m synced =>
    match Dict.get? s.marketplaces m with
    | some marketplace =>
      let manifest := synced.or marketplace.cachedManifest
      some { s with
        marketplaces := Dict.set s.marketplaces m { marketplace with cachedManifest := manifest }
        plugins := Dict.mapValues
          (fun row => if row.marketplaceId = some m then withLatest (manifest.getD []) row else row) s.plugins }
    | none => none
  | .install request fetch read committed =>
    (targetOf s request).map fun target => installed request fetch read committed target s
  | .patchPlugin p enabled =>
    (Dict.get? s.plugins p).map fun row => { s with plugins := Dict.set s.plugins p { row with enabled := enabled } }
  | .update p fetch read rest committed =>
    match Dict.get? s.plugins p with
    | some row =>
      if row.marketplaceId.isSome ∧ marketplaceOf s row = none then none
      else
        match row.latestAvailableVersion, sourceOf s row with
        | some version, some source =>
          if version = "" ∨ version = row.installedVersion then none
          else some (updated p row version source fetch read rest committed s)
        | _, _ => none
    | none => none
  | .uninstall p rest committed => (Dict.get? s.plugins p).map fun row => uninstalled p row rest committed s
  | .startup kept =>
    some { s with
      disk := if kept then s.disk else []
      pending := Dict.ofKeys (Dict.keys s.plugins) (warmOf s) }
  | .warm p fetch => (Dict.get? s.pending p).map fun w => warmed p w fetch s

/-- The database as its migration leaves it. -/
def start : St where
  marketplaces := [(0, ⟨"anthropics/claude-plugins-official", true, none⟩)]
  plugins := []
  disk := []
  pending := []
  nextId := 1

def machine : Machine St Event := ⟨fun s => s = start, step⟩

/-! ## What stays together -/

/-- A row's directory holds its tree, or nothing yet. -/
def Kept (s : St) (p : Nat) (row : Plugin) : Prop :=
  Dict.get? s.disk (dirOf s row) = some (.tree p row.installedVersion) ∨
    Dict.get? s.disk (dirOf s row) = none ∧ (Dict.get? s.pending p).isSome = true

structure Together (s : St) : Prop where
  kept : ∀ p row, Dict.get? s.plugins p = some row → Kept s p row
  apart : ∀ p q row other, Dict.get? s.plugins p = some row → Dict.get? s.plugins q = some other →
    dirOf s row = dirOf s other → p = q

/-- What the rows that stay at their version had on disk is still there. -/
def Undisturbed (s s' : St) : Prop :=
  ∀ p row row' content, Dict.get? s.plugins p = some row → Dict.get? s'.plugins p = some row' →
    row'.installedVersion = row.installedVersion → Dict.get? s.disk (dirOf s row) = some content →
    Dict.get? s'.disk (dirOf s row) = some content

/-- The directory is no row's, or has nothing of the row's and gets nothing. -/
def Spared (s : St) (d : Dir) (bare : Prop) : Prop :=
  ∀ p row, Dict.get? s.plugins p = some row → dirOf s row = d → Dict.get? s.disk d = none ∧ bare

/-- A fetch's way through the directory beside its destination. -/
def Beside (s : St) (source : NormalizedSource) (dest : Dir) (fetch : Fetch) : Prop :=
  viaTmp source fetch = true →
    Spared s dest.tmp (succeeds source fetch = true ∨ fetch.tmpRest ≠ .part) ∧
      (succeeds source fetch = true → Dict.get? s.disk dest.tmp = none)

/-- An update to a version with the same segment goes through to its end or changes nothing;
    another finds its directory free, and is committed if it removes the old one. -/
def CleanUpdate (s : St) (row : Plugin) (version : String) (source : NormalizedSource) (fetch : Fetch) (read : Bool)
    (rest : Rest) (committed : Bool) : Prop :=
  let newDir := pluginInstallDir (scopeOf s row) row.pluginName version
  let bare := Dict.get? s.disk (dirOf s row) = none
  Beside s source newDir fetch ∧
    (dirOf s row = newDir →
      succeeds source fetch = true ∧ read = true ∧ committed = true ∨ bare ∧ FailsBare source fetch) ∧
    (dirOf s row ≠ newDir → Spared s newDir (FailsBare source fetch) ∧
      (succeeds source fetch = true → read = true → committed = true ∨ rest = .whole ∨ bare))

def Unused (s : St) (m : Nat) : Prop := ∀ p row, Dict.get? s.plugins p = some row → row.marketplaceId ≠ some m

/-- No marketplace with plugins changes its segment; what is fetched goes where no other row's
    directory is, nor its own unless all succeeds; no commit fails behind a removal; and what
    the startup has to fetch it fetches. -/
def Clean (s : St) : Event → Prop
  | .patchMarketplace m name _ =>
    ∀ marketplace new, Dict.get? s.marketplaces m = some marketplace → name = some new →
      segment new = segment marketplace.name ∨ Unused s m
  | .deleteMarketplace m =>
    ∀ marketplace, Dict.get? s.marketplaces m = some marketplace →
      segment "manual" = segment marketplace.name ∨ Unused s m
  | .install request fetch _ _ =>
    ∀ target, targetOf s request = some target →
      Beside s target.source (pluginInstallDir target.scope request.pluginName target.version) fetch ∧
        Spared s (pluginInstallDir target.scope request.pluginName target.version) (FailsBare target.source fetch)
  | .update p fetch read rest committed =>
    ∀ row version source, Dict.get? s.plugins p = some row → row.latestAvailableVersion = some version →
      sourceOf s row = some source → CleanUpdate s row version source fetch read rest committed
  | .uninstall p rest committed =>
    ∀ row, Dict.get? s.plugins p = some row →
      committed = true ∨ rest = .whole ∨ Dict.get? s.disk (dirOf s row) = none
  | .startup kept =>
    ∀ p row, Dict.get? s.plugins p = some row → row.enabled = false →
      kept = true ∧ Dict.get? s.disk (dirOf s row) ≠ none
  | .warm p fetch =>
    ∀ w source, Dict.get? s.pending p = some w → w.source = some source → Dict.get? s.disk w.dir = none →
      Beside s source w.dir fetch ∧
        ∀ q row, Dict.get? s.plugins q = some row → dirOf s row = w.dir → q = p ∧ succeeds source fetch = true
  | _ => True

/-- A row of another directory than the destination has on disk what it had. -/
theorem get_fetch_row {s : St} {p : Nat} {row : Plugin} {source : NormalizedSource} {dest : Dir} {tree : Content}
    {fetch : Fetch} (hrow : Dict.get? s.plugins p = some row)
    (hbeside : Beside s source dest fetch)
    (hdest : dirOf s row = dest → Dict.get? s.disk dest = none ∧ FailsBare source fetch) :
    Dict.get? (fetchPluginInto source dest tree fetch s.disk) (dirOf s row) = Dict.get? s.disk (dirOf s row) := by
  by_cases hd : dirOf s row = dest
  · rw [hd, get_fetch_bare (hdest hd).1 (hdest hd).2, (hdest hd).1]
  · by_cases ht : viaTmp source fetch = true ∧ dirOf s row = dest.tmp
    · rcases ht with ⟨hvia, ht⟩
      obtain ⟨hnone, hbare⟩ := (hbeside hvia).1 p row hrow ht
      rw [ht, get_fetch_beside hvia hnone hbare, hnone]
    · exact get_fetch_other (Ne.symm hd) fun hvia he => ht ⟨hvia, he.symm⟩

/-! ## The invariant -/

structure Inv (s : St) : Prop where
  together : Together s
  known : ∀ p row m, Dict.get? s.plugins p = some row → row.marketplaceId = some m →
    (Dict.get? s.marketplaces m).isSome = true
  fresh : ∀ p, (Dict.get? s.plugins p).isSome = true → p < s.nextId
  freshMarketplace : ∀ m, (Dict.get? s.marketplaces m).isSome = true → m < s.nextId
  /-- A row without files is fetched as it is. -/
  awaited : ∀ p w row, Dict.get? s.pending p = some w → Dict.get? s.plugins p = some row →
    Dict.get? s.disk (dirOf s row) = none → w.dir = dirOf s row ∧ w.version = row.installedVersion

theorem start_inv : Inv start := by
  have hnone : ∀ p, Dict.get? start.plugins p = none := fun _ => rfl
  have hrow : ∀ p row, Dict.get? start.plugins p ≠ some row := by
    intro p row h
    rw [hnone] at h
    cases h
  refine ⟨⟨fun p row h => absurd h (hrow p row), fun p _ row _ h => absurd h (hrow p row)⟩,
    fun p row _ h => absurd h (hrow p row), ?_, ?_, fun p _ row _ h => absurd h (hrow p row)⟩
  · intro p h
    rw [hnone] at h
    cases h
  · intro m hm
    have hmem := (Dict.mem_keys_iff _ _).mpr hm
    rw [List.mem_singleton.mp hmem]
    decide

/-- Each row was there before, with its version, its directory and its files. -/
structure Carried (s s' : St) : Prop where
  row : ∀ p row', Dict.get? s'.plugins p = some row' → ∃ row, Dict.get? s.plugins p = some row ∧
    row'.installedVersion = row.installedVersion ∧ dirOf s' row' = dirOf s row ∧
    Dict.get? s'.disk (dirOf s row) = Dict.get? s.disk (dirOf s row)
  pending : s'.pending = s.pending

theorem Carried.together {s s' : St} (h : Carried s s') (hs : Together s) : Together s' := by
  constructor
  · intro p row' hrow'
    obtain ⟨row, hrow, hversion, hdir, hdisk⟩ := h.row p row' hrow'
    unfold Kept
    rw [hdir, hdisk, hversion, h.pending]
    exact hs.kept p row hrow
  · intro p q row' other' hrow' hother' he
    obtain ⟨row, hrow, -, hdir, -⟩ := h.row p row' hrow'
    obtain ⟨other, hother, -, hdir', -⟩ := h.row q other' hother'
    rw [hdir, hdir'] at he
    exact hs.apart p q row other hrow hother he

theorem Carried.inv {s s' : St} (h : Carried s s') (hs : Inv s) (hid : s.nextId ≤ s'.nextId)
    (hknown : ∀ p row m, Dict.get? s'.plugins p = some row → row.marketplaceId = some m →
      (Dict.get? s'.marketplaces m).isSome = true)
    (hfresh : ∀ m, (Dict.get? s'.marketplaces m).isSome = true → m < s'.nextId) : Inv s' := by
  refine ⟨h.together hs.together, hknown, ?_, hfresh, ?_⟩
  · intro p hp
    obtain ⟨row', hrow'⟩ := Option.isSome_iff_exists.mp hp
    obtain ⟨row, hrow, -⟩ := h.row p row' hrow'
    have := hs.fresh p (by rw [hrow]; rfl)
    omega
  · intro p w row' hw hrow' hnone
    obtain ⟨row, hrow, hversion, hdir, hdisk⟩ := h.row p row' hrow'
    rw [h.pending] at hw
    rw [hdir, hdisk] at hnone
    rw [hdir, hversion]
    exact hs.awaited p w row hw hrow hnone

theorem Carried.undisturbed {s s' : St} (h : Carried s s') : Undisturbed s s' := by
  intro p row row' content hrow hrow' _ hcontent
  obtain ⟨row₀, hrow₀, -, -, hdisk⟩ := h.row p row' hrow'
  rw [hrow] at hrow₀
  cases hrow₀
  rw [hdisk, hcontent]

/-! ## Marketplaces -/

/-- A row of the same marketplace, name and version. -/
structure SamePlace (row row' : Plugin) : Prop where
  id : row'.marketplaceId = row.marketplaceId
  name : row'.pluginName = row.pluginName
  version : row'.installedVersion = row.installedVersion

theorem dirOf_congr {s s' : St} {row row' : Plugin} (hscope : segment (scopeOf s' row') = segment (scopeOf s row))
    (hname : row'.pluginName = row.pluginName) (hversion : row'.installedVersion = row.installedVersion) :
    dirOf s' row' = dirOf s row := by
  unfold dirOf pluginInstallDir
  rw [hscope, hname, hversion]

theorem scopeOf_marketplace {s : St} {row : Plugin} {m : Nat} {marketplace : Marketplace}
    (hm : row.marketplaceId = some m) (hget : Dict.get? s.marketplaces m = some marketplace) :
    scopeOf s row = marketplace.name := by
  simp [scopeOf, marketplaceOf, hm, hget]

/-- A row whose marketplace is called what it was up to its segment. -/
theorem scope_set {s : St} {m : Nat} {marketplace : Marketplace} {plugins : List (Nat × Plugin)} {n : Nat}
    {row row' : Plugin} (hid : row'.marketplaceId = row.marketplaceId)
    (hname : row.marketplaceId = some m → segment marketplace.name = segment (scopeOf s row)) :
    segment (scopeOf { s with
      marketplaces := Dict.set s.marketplaces m marketplace, plugins := plugins, nextId := n } row') =
      segment (scopeOf s row) := by
  by_cases hm : row.marketplaceId = some m
  · have hscope : scopeOf { s with
        marketplaces := Dict.set s.marketplaces m marketplace, plugins := plugins, nextId := n } row' =
        marketplace.name := by
      exact scopeOf_marketplace (hid.trans hm) (Dict.get?_set_self ..)
    rw [hscope, hname hm]
  · unfold scopeOf marketplaceOf
    rw [hid]
    cases hk : row.marketplaceId with
    | none => rfl
    | some k =>
      have hne : m ≠ k := by
        rintro rfl
        exact hm hk
      rw [Option.bind_some, Option.bind_some, Dict.get?_set_other _ _ hne]

/-- A marketplace is stored under a name of the same segment, or one no row is of, and no
    row's place on disk changes. -/
theorem setMarketplace_carried {s : St} {m : Nat} {marketplace : Marketplace} {plugins : List (Nat × Plugin)} {n : Nat}
    (hrows : ∀ p row', Dict.get? plugins p = some row' →
      ∃ row, Dict.get? s.plugins p = some row ∧ SamePlace row row')
    (hname : ∀ p row, Dict.get? s.plugins p = some row → row.marketplaceId = some m →
      segment marketplace.name = segment (scopeOf s row)) :
    Carried s { s with
      marketplaces := Dict.set s.marketplaces m marketplace, plugins := plugins, nextId := n } := by
  refine ⟨?_, rfl⟩
  intro p row' hrow'
  obtain ⟨row, hrow, hsame⟩ := hrows p row' hrow'
  exact ⟨row, hrow, hsame.version, dirOf_congr (scope_set hsame.id (hname p row hrow)) hsame.name hsame.version, rfl⟩

theorem setMarketplace_inv {s : St} {m : Nat} {marketplace : Marketplace} {plugins : List (Nat × Plugin)} {n : Nat}
    (h : Inv s) (hm : m < n) (hn : s.nextId ≤ n)
    (hrows : ∀ p row', Dict.get? plugins p = some row' →
      ∃ row, Dict.get? s.plugins p = some row ∧ SamePlace row row')
    (hname : ∀ p row, Dict.get? s.plugins p = some row → row.marketplaceId = some m →
      segment marketplace.name = segment (scopeOf s row)) :
    Inv { s with marketplaces := Dict.set s.marketplaces m marketplace, plugins := plugins, nextId := n } := by
  refine (setMarketplace_carried hrows hname).inv h hn ?_ ?_
  · intro p row' k hrow' hk
    obtain ⟨row, hrow, hsame⟩ := hrows p row' hrow'
    exact Dict.isSome_set m marketplace (h.known p row k hrow (hsame.id ▸ hk))
  · intro k hk
    have hk : (Dict.get? (Dict.set s.marketplaces m marketplace) k).isSome = true := hk
    rw [Dict.get?_set] at hk
    split at hk
    · rename_i he
      rw [← he]
      exact hm
    · exact Nat.lt_of_lt_of_le (h.freshMarketplace k hk) hn

theorem SamePlace.refl (row : Plugin) : SamePlace row row := ⟨rfl, rfl, rfl⟩

theorem withLatest_place (entries : List MarketplacePluginEntry) (row : Plugin) :
    SamePlace row (withLatest entries row) := by
  unfold withLatest
  dsimp only
  split
  · exact ⟨rfl, rfl, rfl⟩
  · exact .refl row

/-- A row without its marketplace is where it was if it had none of that name. -/
theorem deleteMarketplace_carried {s : St} {m : Nat} {marketplace : Marketplace}
    (hget : Dict.get? s.marketplaces m = some marketplace)
    (hc : segment "manual" = segment marketplace.name ∨ Unused s m) :
    Carried s { s with
      marketplaces := Dict.pop s.marketplaces m
      plugins := Dict.mapValues (withoutMarketplace m) s.plugins } := by
  refine ⟨?_, rfl⟩
  intro p row' hrow'
  have hrow' : Dict.get? (Dict.mapValues (withoutMarketplace m) s.plugins) p = some row' := hrow'
  rw [Dict.get?_mapValues] at hrow'
  obtain ⟨row, hrow, rfl⟩ := Option.map_eq_some_iff.mp hrow'
  refine ⟨row, hrow, ?_, ?_, rfl⟩
  · unfold withoutMarketplace
    split
    · rfl
    · rfl
  · unfold withoutMarketplace
    split
    · rename_i hm
      refine dirOf_congr ?_ rfl rfl
      rw [scopeOf_marketplace hm hget]
      exact hc.resolve_right fun hunused => hunused p row hrow hm
    · rename_i hm
      refine dirOf_congr ?_ rfl rfl
      unfold scopeOf marketplaceOf
      cases hk : row.marketplaceId with
      | none => rfl
      | some k =>
        have hne : m ≠ k := by
          rintro rfl
          exact hm hk
        rw [Option.bind_some, Option.bind_some, Dict.get?_pop_other _ hne]

theorem deleteMarketplace_inv {s : St} {m : Nat} {marketplace : Marketplace} (h : Inv s)
    (hget : Dict.get? s.marketplaces m = some marketplace)
    (hc : segment "manual" = segment marketplace.name ∨ Unused s m) :
    Inv { s with
      marketplaces := Dict.pop s.marketplaces m
      plugins := Dict.mapValues (withoutMarketplace m) s.plugins } := by
  refine (deleteMarketplace_carried hget hc).inv h (Nat.le_refl _) ?_ ?_
  · intro p row' k hrow' hk
    have hrow' : Dict.get? (Dict.mapValues (withoutMarketplace m) s.plugins) p = some row' := hrow'
    rw [Dict.get?_mapValues] at hrow'
    obtain ⟨row, hrow, rfl⟩ := Option.map_eq_some_iff.mp hrow'
    unfold withoutMarketplace at hk
    split at hk
    · cases hk
    · rename_i hm
      have hne : m ≠ k := by
        rintro rfl
        exact hm hk
      show (Dict.get? (Dict.pop s.marketplaces m) k).isSome = true
      rw [Dict.get?_pop_other _ hne]
      exact h.known p row k hrow hk
  · intro k hk
    obtain ⟨marketplace', hk⟩ := Option.isSome_iff_exists.mp hk
    exact h.freshMarketplace k (Option.isSome_of_eq_some (Dict.get?_pop_some hk).2)

/-! ## Plugins -/

/-- A row is stored whose tree is there, in a directory of no other. -/
theorem store_inv {s : St} {p n : Nat} {row : Plugin} {disk : List (Dir × Content)} (h : Inv s) (hp : p < n)
    (hn : s.nextId ≤ n)
    (hknown : ∀ m, row.marketplaceId = some m → (Dict.get? s.marketplaces m).isSome = true)
    (htree : Dict.get? disk (dirOf s row) = some (.tree p row.installedVersion))
    (hfree : ∀ q other, Dict.get? s.plugins q = some other → p ≠ q → dirOf s other ≠ dirOf s row)
    (hdisk : ∀ q other, Dict.get? s.plugins q = some other → p ≠ q →
      Dict.get? disk (dirOf s other) = Dict.get? s.disk (dirOf s other)) :
    Inv { s with disk := disk, plugins := Dict.set s.plugins p row, nextId := n } := by
  refine ⟨⟨?_, ?_⟩, ?_, ?_, ?_, ?_⟩
  · intro q other hq
    rcases Dict.get?_set_cases hq with ⟨rfl, rfl⟩ | ⟨hne, hq⟩
    · exact .inl htree
    · have hkept := h.together.kept q other hq
      unfold Kept at hkept
      rw [← hdisk q other hq hne] at hkept
      exact hkept
  · intro q r other third hq hr he
    rcases Dict.get?_set_cases hq with ⟨rfl, rfl⟩ | ⟨hneq, hq⟩
    · rcases Dict.get?_set_cases hr with ⟨rfl, rfl⟩ | ⟨hne, hr⟩
      · rfl
      · exact absurd he.symm (hfree r third hr hne)
    · rcases Dict.get?_set_cases hr with ⟨rfl, rfl⟩ | ⟨-, hr⟩
      · exact absurd he (hfree q other hq hneq)
      · exact h.together.apart q r other third hq hr he
  · intro q other m hq hm
    rcases Dict.get?_set_cases hq with ⟨rfl, rfl⟩ | ⟨-, hq⟩
    · exact hknown m hm
    · exact h.known q other m hq hm
  · intro q hq
    obtain ⟨other, hq⟩ := Option.isSome_iff_exists.mp hq
    rcases Dict.get?_set_cases hq with ⟨rfl, rfl⟩ | ⟨-, hq⟩
    · exact hp
    · exact Nat.lt_of_lt_of_le (h.fresh q (by rw [hq]; rfl)) hn
  · intro m hm
    exact Nat.lt_of_lt_of_le (h.freshMarketplace m hm) hn
  · intro q w other hw hq hnone
    rcases Dict.get?_set_cases hq with ⟨rfl, rfl⟩ | ⟨hne, hq⟩
    · cases htree.symm.trans hnone
    · exact h.awaited q w other hw hq ((hdisk q other hq hne).symm.trans hnone)

theorem targetOf_spec {s : St} {request : PluginInstallRequest} {target : Target}
    (h : targetOf s request = some target) :
    (∀ m, request.marketplaceId = some m → (Dict.get? s.marketplaces m).isSome = true) ∧
      ∀ row : Plugin, row.marketplaceId = request.marketplaceId → scopeOf s row = target.scope := by
  unfold targetOf at h
  split at h
  · rename_i m hm
    split at h
    · rename_i marketplace entry hfound
      obtain ⟨found, hget, hpair⟩ := Option.map_eq_some_iff.mp hfound
      obtain ⟨rfl, -⟩ := Prod.mk.inj hpair
      obtain ⟨-, h⟩ := Option.ite_none_left_eq_some.mp h
      cases h
      constructor
      · intro k hk
        cases hm.symm.trans hk
        rw [hget]
        rfl
      · intro row hid
        exact scopeOf_marketplace (hid.trans hm) hget
    · cases h
  · rename_i hm
    obtain ⟨-, h⟩ := Option.ite_none_right_eq_some.mp h
    cases h
    constructor
    · intro k hk
      cases hm.symm.trans hk
    · intro row hid
      simp [scopeOf, marketplaceOf, hid, hm]

section

variable {s : St} {request : PluginInstallRequest} {fetch : Fetch} {read committed : Bool} {target : Target}

/-- An install leaves every row's files. -/
theorem get_installed {p : Nat} {row : Plugin} (hrow : Dict.get? s.plugins p = some row)
    (hc : Clean s (.install request fetch read committed)) (htarget : targetOf s request = some target) :
    Dict.get? (installed request fetch read committed target s).disk (dirOf s row) =
      Dict.get? s.disk (dirOf s row) := by
  obtain ⟨hbeside, hspared⟩ := hc target htarget
  have hdisk : Dict.get? (fetchPluginInto target.source
      (pluginInstallDir target.scope request.pluginName target.version) (.tree s.nextId target.version) fetch s.disk)
      (dirOf s row) = Dict.get? s.disk (dirOf s row) := get_fetch_row hrow hbeside (hspared p row hrow)
  unfold installed
  dsimp only
  split
  · exact hdisk
  · exact hdisk

theorem installed_undisturbed (hc : Clean s (.install request fetch read committed))
    (htarget : targetOf s request = some target) : Undisturbed s (installed request fetch read committed target s) := by
  intro p row row' content hrow _ _ hcontent
  rw [get_installed hrow hc htarget, hcontent]

theorem installed_inv (h : Inv s) (hc : Clean s (.install request fetch read committed))
    (htarget : targetOf s request = some target) : Inv (installed request fetch read committed target s) := by
  have hdisk : ∀ p row, Dict.get? s.plugins p = some row →
      Dict.get? (installed request fetch read committed target s).disk (dirOf s row) =
        Dict.get? s.disk (dirOf s row) := fun p row hrow => get_installed hrow hc htarget
  obtain ⟨hbeside, hspared⟩ := hc target htarget
  obtain ⟨hknown, hscope⟩ := targetOf_spec htarget
  unfold installed at hdisk ⊢
  dsimp only at hdisk ⊢
  split
  · rename_i hstored
    rw [if_pos hstored] at hdisk
    have hs : succeeds target.source fetch = true := by
      simp only [installs, Bool.and_eq_true] at hstored
      exact hstored.1.1.1
    have hnew : dirOf s (rowOf request target) =
        pluginInstallDir target.scope request.pluginName target.version := by
      unfold dirOf
      rw [hscope _ rfl]
      rfl
    refine store_inv h (Nat.lt_succ_self _) (Nat.le_succ _) hknown ?_ ?_ fun p row hrow _ => hdisk p row hrow
    · rw [hnew]
      exact get_fetch_tree hs fun hvia => (hbeside hvia).2 hs
    · intro p row hrow _ hd
      have hfails := (hspared p row hrow (hd.trans hnew)).2.1
      rw [hs] at hfails
      cases hfails
  · rename_i hstored
    rw [if_neg hstored] at hdisk
    refine Carried.inv (s := s) ⟨?_, rfl⟩ h (Nat.le_succ _) h.known
      fun m hm => Nat.lt_succ_of_lt (h.freshMarketplace m hm)
    intro p row hrow
    exact ⟨row, hrow, rfl, rfl, hdisk p row hrow⟩

end

theorem patchPlugin_carried {s : St} {p : Nat} {row : Plugin} (enabled : Bool)
    (hrow : Dict.get? s.plugins p = some row) :
    Carried s { s with plugins := Dict.set s.plugins p { row with enabled := enabled } } := by
  refine ⟨?_, rfl⟩
  intro q row' hrow'
  rcases Dict.get?_set_cases hrow' with ⟨rfl, rfl⟩ | ⟨-, hother⟩
  · exact ⟨row, hrow, rfl, rfl, rfl⟩
  · exact ⟨row', hother, rfl, rfl, rfl⟩

theorem patchPlugin_inv {s : St} {p : Nat} {row : Plugin} (enabled : Bool) (h : Inv s)
    (hrow : Dict.get? s.plugins p = some row) :
    Inv { s with plugins := Dict.set s.plugins p { row with enabled := enabled } } := by
  refine (patchPlugin_carried enabled hrow).inv h (Nat.le_refl _) ?_ h.freshMarketplace
  intro q row' m hrow' hm
  rcases Dict.get?_set_cases hrow' with ⟨rfl, rfl⟩ | ⟨-, hother⟩
  · exact h.known p row m hrow hm
  · exact h.known q row' m hother hm

section

variable {s : St} {p : Nat} {row : Plugin} {rest : Rest} {committed : Bool}

/-- An uninstall takes the files of its plugin, and of no other. -/
theorem uninstalled_carried (h : Inv s) (hc : Clean s (.uninstall p rest committed))
    (hrow : Dict.get? s.plugins p = some row) : Carried s (uninstalled p row rest committed s) := by
  have hother : ∀ q other, Dict.get? s.plugins q = some other → q ≠ p →
      Dict.get? (remove (dirOf s row) rest s.disk) (dirOf s other) = Dict.get? s.disk (dirOf s other) := by
    intro q other hq hne
    refine get_remove_other _ _ ?_
    intro he
    exact hne (h.together.apart q p other row hq hrow he.symm)
  unfold uninstalled
  dsimp only
  split
  · refine ⟨?_, rfl⟩
    intro q other hq
    obtain ⟨hne, hq⟩ := Dict.get?_pop_some hq
    exact ⟨other, hq, rfl, rfl, hother q other hq hne.symm⟩
  · rename_i hfails
    refine ⟨?_, rfl⟩
    intro q other hq
    refine ⟨other, hq, rfl, rfl, ?_⟩
    by_cases hqp : q = p
    · subst hqp
      cases hrow.symm.trans hq
      exact congrArg (Dict.get? · (dirOf s row)) (remove_eq ((hc row hrow).resolve_left hfails))
    · exact hother q other hq hqp

theorem uninstalled_inv (h : Inv s) (hc : Clean s (.uninstall p rest committed))
    (hrow : Dict.get? s.plugins p = some row) : Inv (uninstalled p row rest committed s) := by
  have hcarried := uninstalled_carried h hc hrow
  unfold uninstalled at hcarried ⊢
  dsimp only at hcarried ⊢
  split
  · rename_i hdone
    rw [if_pos hdone] at hcarried
    refine hcarried.inv h (Nat.le_refl _) ?_ h.freshMarketplace
    intro q other m hq hm
    exact h.known q other m (Dict.get?_pop_some hq).2 hm
  · rename_i hfails
    rw [if_neg hfails] at hcarried
    exact hcarried.inv h (Nat.le_refl _) h.known h.freshMarketplace

end

/-! ## Updates -/

section

variable {s : St} {p : Nat} {row : Plugin} {version : String} {source : NormalizedSource} {fetch : Fetch} {read : Bool}
  {rest : Rest} {committed : Bool}

theorem update_cases {s' : St} (hst : step s (.update p fetch read rest committed) = some s') :
    ∃ row version source, Dict.get? s.plugins p = some row ∧ row.latestAvailableVersion = some version ∧
      sourceOf s row = some source ∧ version ≠ row.installedVersion ∧
      updated p row version source fetch read rest committed s = s' := by
  simp only [step] at hst
  split at hst
  · rename_i row hrow
    obtain ⟨-, hst⟩ := Option.ite_none_left_eq_some.mp hst
    split at hst
    · rename_i version source hlatest hsource
      obtain ⟨hversion, hst⟩ := Option.ite_none_left_eq_some.mp hst
      cases hst
      exact ⟨row, version, source, hrow, hlatest, hsource, fun he => hversion (.inr he), rfl⟩
    · cases hst
  · cases hst

/-- An update that leaves its row as it is leaves its files, and those of the others always. -/
theorem get_updated {q : Nat} {other : Plugin} (h : Inv s) (hrow : Dict.get? s.plugins p = some row)
    (hc : CleanUpdate s row version source fetch read rest committed) (hq : Dict.get? s.plugins q = some other)
    (hstays : q = p → ¬(succeeds source fetch = true ∧ read = true ∧ committed = true)) :
    Dict.get? (updated p row version source fetch read rest committed s).disk (dirOf s other) =
      Dict.get? s.disk (dirOf s other) := by
  obtain ⟨hbeside, hsame, hnew⟩ := hc
  have hfetch : Dict.get? (fetchPluginInto source (pluginInstallDir (scopeOf s row) row.pluginName version)
      (.tree p version) fetch s.disk) (dirOf s other) = Dict.get? s.disk (dirOf s other) := by
    refine get_fetch_row hq hbeside ?_
    intro hd
    by_cases hdir : dirOf s row = pluginInstallDir (scopeOf s row) row.pluginName version
    · have hqp : q = p := h.together.apart q p other row hq hrow (hd.trans hdir.symm)
      have hbare := (hsame hdir).resolve_left (hstays hqp)
      rw [← hdir]
      exact hbare
    · exact (hnew hdir).1 q other hq hd
  have hremove : dirOf s row ≠ pluginInstallDir (scopeOf s row) row.pluginName version → succeeds source fetch = true →
      read = true → Dict.get? (remove (dirOf s row) rest (fetchPluginInto source
        (pluginInstallDir (scopeOf s row) row.pluginName version) (.tree p version) fetch s.disk)) (dirOf s other) =
        Dict.get? s.disk (dirOf s other) := by
    intro hdir hs hread
    by_cases hqp : q = p
    · subst hqp
      cases hrow.symm.trans hq
      have hleft := ((hnew hdir).2 hs hread).resolve_left fun hdone => hstays rfl ⟨hs, hread, hdone⟩
      rw [remove_eq (hleft.imp_right fun hnone => hfetch.trans hnone), hfetch]
    · rw [get_remove_other _ _ fun he => hqp (h.together.apart q p other row hq hrow he.symm), hfetch]
  unfold updated
  dsimp only
  split
  · rename_i hs
    rw [Bool.and_eq_true] at hs
    by_cases hdir : dirOf s row = pluginInstallDir (scopeOf s row) row.pluginName version
    · rw [if_neg (not_not_intro hdir)]
      split
      · exact hfetch
      · exact hfetch
    · rw [if_pos hdir]
      split
      · exact hremove hdir hs.1 hs.2
      · exact hremove hdir hs.1 hs.2
  · exact hfetch

theorem updated_undisturbed (h : Inv s) (hrow : Dict.get? s.plugins p = some row) (hv : version ≠ row.installedVersion)
    (hc : CleanUpdate s row version source fetch read rest committed) :
    Undisturbed s (updated p row version source fetch read rest committed s) := by
  intro q other other' content hq hq' hversion hcontent
  rw [get_updated h hrow hc hq, hcontent]
  rintro rfl ⟨hs, hread, hdone⟩
  cases hrow.symm.trans hq
  unfold updated at hq'
  rw [hs, hread, hdone] at hq'
  have hq' : Dict.get? (Dict.set s.plugins q { row with installedVersion := version }) q = some other' := hq'
  rw [Dict.get?_set_self] at hq'
  cases hq'
  exact hv hversion

/-- An update that stores no version changes the disk only. -/
theorem updated_unstored (hnot : ¬(succeeds source fetch = true ∧ read = true ∧ committed = true)) :
    updated p row version source fetch read rest committed s =
      { s with disk := (updated p row version source fetch read rest committed s).disk } := by
  unfold updated
  dsimp only
  split
  · rename_i hs
    rw [Bool.and_eq_true] at hs
    rw [if_neg fun hdone => hnot ⟨hs.1, hs.2, hdone⟩]
  · rfl

/-- An update that stores its version has the new tree where the row is now. -/
theorem get_updated_tree (hc : CleanUpdate s row version source fetch read rest true)
    (hs : succeeds source fetch = true) :
    Dict.get? (updated p row version source fetch true rest true s).disk
      (pluginInstallDir (scopeOf s row) row.pluginName version) = some (.tree p version) := by
  have htree : Dict.get? (fetchPluginInto source (pluginInstallDir (scopeOf s row) row.pluginName version)
      (.tree p version) fetch s.disk) (pluginInstallDir (scopeOf s row) row.pluginName version) =
      some (.tree p version) := get_fetch_tree hs fun hvia => (hc.1 hvia).2 hs
  unfold updated
  rw [hs]
  show Dict.get? (if dirOf s row ≠ pluginInstallDir (scopeOf s row) row.pluginName version then _ else _) _ = _
  split
  · rename_i hdir
    rw [get_remove_other _ _ hdir, htree]
  · exact htree

theorem updated_inv (h : Inv s) (hrow : Dict.get? s.plugins p = some row)
    (hc : CleanUpdate s row version source fetch read rest committed) :
    Inv (updated p row version source fetch read rest committed s) := by
  have hdisk : ∀ q other, Dict.get? s.plugins q = some other →
      (q = p → ¬(succeeds source fetch = true ∧ read = true ∧ committed = true)) →
      Dict.get? (updated p row version source fetch read rest committed s).disk (dirOf s other) =
        Dict.get? s.disk (dirOf s other) := fun q other hq hstays => get_updated h hrow hc hq hstays
  by_cases hdone : succeeds source fetch = true ∧ read = true ∧ committed = true
  · rcases hdone with ⟨hs, rfl, rfl⟩
    have htree := get_updated_tree (p := p) hc hs
    obtain ⟨-, -, hnew⟩ := hc
    have hstored : updated p row version source fetch true rest true s =
        { s with
          disk := (updated p row version source fetch true rest true s).disk
          plugins := Dict.set s.plugins p { row with installedVersion := version } } := by
      unfold updated
      rw [hs]
      rfl
    rw [hstored]
    refine store_inv h (h.fresh p (by rw [hrow]; rfl)) (Nat.le_refl _) (h.known p row · hrow) htree ?_
      fun q other hq hne => hdisk q other hq fun he => absurd he.symm hne
    intro q other hq hne hd
    by_cases hdir : dirOf s row = pluginInstallDir (scopeOf s row) row.pluginName version
    · exact hne (h.together.apart p q row other hrow hq (hdir.trans hd.symm))
    · have hfails := ((hnew hdir).1 q other hq hd).2.1
      rw [hs] at hfails
      cases hfails
  · rw [updated_unstored hdone]
    refine Carried.inv (s := s) ⟨?_, rfl⟩ h (Nat.le_refl _) h.known h.freshMarketplace
    intro q other hq
    exact ⟨other, hq, rfl, rfl, hdisk q other hq fun _ => hdone⟩

end

/-! ## The startup -/

theorem warmOf_row {s : St} {p : Nat} {row : Plugin} (hrow : Dict.get? s.plugins p = some row) :
    warmOf s p = if row.enabled then some ⟨sourceOf s row, dirOf s row, row.installedVersion⟩ else none := by
  unfold warmOf
  rw [hrow]
  cases henabled : row.enabled with
  | true => simp [Option.filter, henabled]
  | false => simp [Option.filter, henabled]

theorem get_startup (s : St) (p : Nat) : Dict.get? (Dict.ofKeys (Dict.keys s.plugins) (warmOf s)) p = warmOf s p := by
  refine Dict.get?_ofKeys ?_ p
  intro q hq
  rw [Dict.mem_keys_iff]
  cases hrow : Dict.get? s.plugins q with
  | none =>
    unfold warmOf at hq
    rw [hrow] at hq
    cases hq
  | some row => rfl

theorem startup_inv {s : St} {kept : Bool} (h : Inv s) (hc : Clean s (.startup kept)) :
    Inv { s with
      disk := if kept then s.disk else []
      pending := Dict.ofKeys (Dict.keys s.plugins) (warmOf s) } := by
  refine ⟨⟨?_, h.together.apart⟩, h.known, h.fresh, h.freshMarketplace, ?_⟩
  · intro p row hrow
    have hrow : Dict.get? s.plugins p = some row := hrow
    show Dict.get? (if kept then s.disk else []) (dirOf s row) = _ ∨
      Dict.get? (if kept then s.disk else []) (dirOf s row) = none ∧
        (Dict.get? (Dict.ofKeys (Dict.keys s.plugins) (warmOf s)) p).isSome = true
    rw [get_startup, warmOf_row hrow]
    cases henabled : row.enabled with
    | true =>
      cases kept with
      | true => exact (h.together.kept p row hrow).imp_right fun hnone => ⟨hnone.1, rfl⟩
      | false => exact .inr ⟨rfl, rfl⟩
    | false =>
      obtain ⟨rfl, hsome⟩ := hc p row hrow henabled
      exact .inl ((h.together.kept p row hrow).resolve_right fun hnone => hsome hnone.1)
  · intro p w row hw hrow _
    have hrow : Dict.get? s.plugins p = some row := hrow
    have hw : Dict.get? (Dict.ofKeys (Dict.keys s.plugins) (warmOf s)) p = some w := hw
    rw [get_startup, warmOf_row hrow] at hw
    obtain ⟨-, hw⟩ := Option.ite_none_right_eq_some.mp hw
    cases hw
    exact ⟨rfl, rfl⟩

/-- A future is done: what a row had it has, and no other waits for it. -/
theorem done_inv {s : St} {p : Nat} {disk : List (Dir × Content)} (h : Inv s)
    (hrow : ∀ row, Dict.get? s.plugins p = some row →
      Dict.get? disk (dirOf s row) = some (.tree p row.installedVersion))
    (hother : ∀ q row, Dict.get? s.plugins q = some row → q ≠ p →
      Dict.get? disk (dirOf s row) = Dict.get? s.disk (dirOf s row)) :
    Inv { s with disk := disk, pending := Dict.pop s.pending p } := by
  refine ⟨⟨?_, h.together.apart⟩, h.known, h.fresh, h.freshMarketplace, ?_⟩
  · intro q row hq
    by_cases hqp : q = p
    · subst hqp
      exact .inl (hrow row hq)
    · have hkept := h.together.kept q row hq
      unfold Kept at hkept ⊢
      rw [← hother q row hq hqp] at hkept
      refine hkept.imp_right fun hnone => ⟨hnone.1, ?_⟩
      show (Dict.get? (Dict.pop s.pending p) q).isSome = true
      rw [Dict.get?_pop_other _ (Ne.symm hqp)]
      exact hnone.2
  · intro q w row hw hq hnone
    obtain ⟨hpq, hw⟩ := Dict.get?_pop_some hw
    exact h.awaited q w row hw hq ((hother q row hq hpq.symm).symm.trans hnone)

section

variable {s : St} {p : Nat} {w : Warm} {fetch : Fetch}

/-- A row whose future is not done, and that is not where it is fetched to, has its tree. -/
theorem Inv.tree_of_ne {row : Plugin} (h : Inv s) (hw : Dict.get? s.pending p = some w)
    (hrow : Dict.get? s.plugins p = some row)
    (hne : w.dir ≠ dirOf s row ∨ Dict.get? s.disk (dirOf s row) ≠ none) :
    Dict.get? s.disk (dirOf s row) = some (.tree p row.installedVersion) := by
  refine (h.together.kept p row hrow).resolve_right ?_
  intro hnone
  rcases hne with hne | hne
  · exact hne (h.awaited p w row hw hrow hnone.1).1
  · exact hne hnone.1

theorem warmed_spec (h : Inv s) (hc : Clean s (.warm p fetch)) (hw : Dict.get? s.pending p = some w) :
    Inv (warmed p w fetch s) ∧ Undisturbed s (warmed p w fetch s) := by
  unfold warmed
  split
  · rename_i hthere
    refine ⟨done_inv h ?_ fun _ _ _ _ => rfl, fun _ _ _ _ _ _ _ hcontent => hcontent⟩
    intro row hrow
    refine h.tree_of_ne hw hrow ?_
    by_cases hdir : w.dir = dirOf s row
    · rw [hdir] at hthere
      exact .inr (Option.isSome_iff_ne_none.mp hthere)
    · exact .inl hdir
  · rename_i hthere
    have hnone := Option.not_isSome_iff_eq_none.mp hthere
    split
    · rename_i source hsource
      obtain ⟨hbeside, hown⟩ := hc w source hw hsource hnone
      have hrow : ∀ q row, Dict.get? s.plugins q = some row → w.dir ≠ dirOf s row →
          Dict.get? (fetchPluginInto source w.dir (.tree p w.version) fetch s.disk) (dirOf s row) =
            Dict.get? s.disk (dirOf s row) :=
        fun q row hq hne => get_fetch_row hq hbeside fun hd => absurd hd.symm hne
      constructor
      · refine done_inv h ?_ ?_
        · intro row hp
          by_cases hdir : w.dir = dirOf s row
          · obtain ⟨-, hversion⟩ := h.awaited p w row hw hp (hdir ▸ hnone)
            rw [← hdir, ← hversion]
            exact get_fetch_tree (hown p row hp hdir.symm).2 fun hvia => (hbeside hvia).2 (hown p row hp hdir.symm).2
          · rw [hrow p row hp hdir]
            exact h.tree_of_ne hw hp (.inl hdir)
        · intro q row hq hqp
          exact hrow q row hq fun hdir => hqp (hown q row hq hdir.symm).1
      · intro q row row' content hq _ _ hcontent
        have hne : w.dir ≠ dirOf s row := by
          intro hdir
          rw [← hdir, hnone] at hcontent
          cases hcontent
        exact (hrow q row hq hne).trans hcontent
    · exact ⟨h, fun _ _ _ _ _ _ _ hcontent => hcontent⟩

end

/-! ## Runs -/

theorem step_inv {s s' : St} {e : Event} (h : Inv s) (hc : Clean s e) (hst : step s e = some s') : Inv s' := by
  cases e with
  | createMarketplace name synced =>
    obtain ⟨-, hst⟩ := Option.ite_none_left_eq_some.mp hst
    cases hst
    refine setMarketplace_inv h (Nat.lt_succ_self _) (Nat.le_succ _) (fun _ row hrow => ⟨row, hrow, .refl row⟩) ?_
    intro p row hrow hm
    exact absurd (h.freshMarketplace _ (h.known p row _ hrow hm)) (Nat.lt_irrefl _)
  | patchMarketplace m name synced =>
    simp only [step] at hst
    split at hst
    · rename_i marketplace hget
      obtain ⟨-, hst⟩ := Option.ite_none_left_eq_some.mp hst
      cases hst
      refine setMarketplace_inv h (h.freshMarketplace m (by rw [hget]; rfl)) (Nat.le_refl _)
        (fun _ row hrow => ⟨row, hrow, .refl row⟩) ?_
      intro p row hrow hm
      rw [scopeOf_marketplace hm hget]
      cases name with
      | none => rfl
      | some new => exact (hc marketplace new hget rfl).resolve_right fun hunused => hunused p row hrow hm
    · cases hst
  | deleteMarketplace m =>
    simp only [step] at hst
    split at hst
    · rename_i marketplace hget
      obtain ⟨-, hst⟩ := Option.ite_none_left_eq_some.mp hst
      cases hst
      exact deleteMarketplace_inv h hget (hc marketplace hget)
    · cases hst
  | sync m synced =>
    simp only [step] at hst
    split at hst
    · rename_i marketplace hget
      cases hst
      refine setMarketplace_inv h (h.freshMarketplace m (by rw [hget]; rfl)) (Nat.le_refl _) ?_ ?_
      · intro p row' hrow'
        rw [Dict.get?_mapValues] at hrow'
        obtain ⟨row, hrow, rfl⟩ := Option.map_eq_some_iff.mp hrow'
        refine ⟨row, hrow, ?_⟩
        split
        · exact withLatest_place _ row
        · exact .refl row
      · intro p row hrow hm
        rw [scopeOf_marketplace hm hget]
    · cases hst
  | install request fetch read committed =>
    obtain ⟨target, htarget, rfl⟩ := Option.map_eq_some_iff.mp hst
    exact installed_inv h hc htarget
  | patchPlugin p enabled =>
    obtain ⟨row, hrow, rfl⟩ := Option.map_eq_some_iff.mp hst
    exact patchPlugin_inv enabled h hrow
  | update p fetch read rest committed =>
    obtain ⟨row, version, source, hrow, hlatest, hsource, -, rfl⟩ := update_cases hst
    exact updated_inv h hrow (hc row version source hrow hlatest hsource)
  | uninstall p rest committed =>
    obtain ⟨row, hrow, rfl⟩ := Option.map_eq_some_iff.mp hst
    exact uninstalled_inv h hc hrow
  | startup kept =>
    cases hst
    exact startup_inv h hc
  | warm p fetch =>
    obtain ⟨w, hw, rfl⟩ := Option.map_eq_some_iff.mp hst
    exact (warmed_spec h hc hw).1

theorem undisturbed_of_disk {s s' : St} (h : s'.disk = s.disk) : Undisturbed s s' := by
  intro p row row' content _ _ _ hcontent
  rw [h, hcontent]

theorem step_undisturbed {s s' : St} {e : Event} (h : Inv s) (hc : Clean s e) (hst : step s e = some s')
    (he : e ≠ .startup false) : Undisturbed s s' := by
  cases e with
  | createMarketplace name synced =>
    obtain ⟨-, hst⟩ := Option.ite_none_left_eq_some.mp hst
    cases hst
    exact undisturbed_of_disk rfl
  | patchMarketplace m name synced =>
    simp only [step] at hst
    split at hst
    · obtain ⟨-, hst⟩ := Option.ite_none_left_eq_some.mp hst
      cases hst
      exact undisturbed_of_disk rfl
    · cases hst
  | deleteMarketplace m =>
    simp only [step] at hst
    split at hst
    · obtain ⟨-, hst⟩ := Option.ite_none_left_eq_some.mp hst
      cases hst
      exact undisturbed_of_disk rfl
    · cases hst
  | sync m synced =>
    simp only [step] at hst
    split at hst
    · cases hst
      exact undisturbed_of_disk rfl
    · cases hst
  | install request fetch read committed =>
    obtain ⟨target, htarget, rfl⟩ := Option.map_eq_some_iff.mp hst
    exact installed_undisturbed hc htarget
  | patchPlugin p enabled =>
    obtain ⟨row, hrow, rfl⟩ := Option.map_eq_some_iff.mp hst
    exact undisturbed_of_disk rfl
  | update p fetch read rest committed =>
    obtain ⟨row, version, source, hrow, hlatest, hsource, hversion, rfl⟩ := update_cases hst
    exact updated_undisturbed h hrow hversion (hc row version source hrow hlatest hsource)
  | uninstall p rest committed =>
    obtain ⟨row, hrow, rfl⟩ := Option.map_eq_some_iff.mp hst
    exact (uninstalled_carried h hc hrow).undisturbed
  | startup kept =>
    cases hst
    cases kept with
    | true => exact undisturbed_of_disk rfl
    | false => exact absurd rfl he
  | warm p fetch =>
    obtain ⟨w, hw, rfl⟩ := Option.map_eq_some_iff.mp hst
    exact (warmed_spec h hc hw).2

/-- A renaming to another segment leaves the tree of an installed plugin under the old one. -/
theorem a_rename_parts {s s' : St} {m p : Nat} {marketplace : Marketplace} {row : Plugin} {new : String}
    {synced : Option (List MarketplacePluginEntry)} (hget : Dict.get? s.marketplaces m = some marketplace)
    (hrow : Dict.get? s.plugins p = some row) (hm : row.marketplaceId = some m)
    (hnew : segment new ≠ segment marketplace.name)
    (honly : ∀ d, Dict.get? s.disk d = some (.tree p row.installedVersion) → d = dirOf s row)
    (hpending : Dict.get? s.pending p = none)
    (hst : step s (.patchMarketplace m (some new) synced) = some s') : ¬Together s' := by
  simp only [step, hget] at hst
  obtain ⟨-, hst⟩ := Option.ite_none_left_eq_some.mp hst
  cases hst
  intro h
  rcases h.kept p row hrow with htree | ⟨-, hsome⟩
  · have hdir := honly _ htree
    have hscope : segment new = segment (scopeOf s row) := by
      have := congrArg Dir.scope hdir
      simpa [dirOf, pluginInstallDir, scopeOf, marketplaceOf, hm] using this
    exact hnew (hscope.trans (congrArg segment (scopeOf_marketplace hm hget)))
  · rw [hpending] at hsome
    cases hsome

def fetched : Fetch := ⟨true, false, .gone, .gone⟩

/-- The first version of one plugin in a marketplace's manifest. -/
def listed (version : String) : List MarketplacePluginEntry := [⟨"fmt", some version, ⟨some .github, none⟩⟩]

def fromAcme : PluginInstallRequest := ⟨some 1, "fmt", none, none, none⟩

/-- An admin installs a plugin that is installed, and the clone fails. -/
def installedTwice : List Event :=
  [.createMarketplace "acme" (some (listed "1.0")), .install fromAcme fetched true true,
    .install fromAcme ⟨false, false, .gone, .gone⟩ true true]

/-- Two plugins whose names are one segment are installed from their sources. -/
def namesCollide : List Event :=
  [.install ⟨none, "a/b", none, some .github, none⟩ fetched true true,
    .install ⟨none, "a_b", none, some .github, none⟩ fetched true true]

theorem an_install_takes_the_files : ∃ s row, machine.exec start namesCollide = some s ∧
    Dict.get? s.plugins 1 = some row ∧ Dict.get? s.disk (dirOf s row) = some (.tree 2 "latest") ∧ ¬Together s := by
  refine ⟨_, _, rfl, rfl, by decide, ?_⟩
  intro h
  exact absurd (h.apart 1 2 _ _ rfl rfl (by decide)) (by decide)

/-- A plugin is installed, a newer version is listed, and it is updated. -/
def installedAndUpdated : List Event :=
  [.createMarketplace "acme" (some (listed "1.0")), .install fromAcme fetched true true,
    .sync 1 (some (listed "2.0")), .update 2 fetched true .gone true]

end Errand.Server.PluginFiles

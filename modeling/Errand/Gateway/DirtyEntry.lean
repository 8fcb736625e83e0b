import Errand.Lib.FileTree
import Errand.Lib.Json
import Errand.Lib.PyStr
import Errand.Lib.Search
import Mathlib.Data.List.Sort
import Mathlib.Data.Char
import Mathlib.Data.List.Lex

/-
  Errand.Gateway.DirtyEntry — a dirty entry of the VFS cache, and whether the cloud object
  behind it is still the one it was made from (`DirtyEntry`, `parse_fingerprint`,
  `_parse_time`, `fingerprint_matches`; workspace-gateway/cache_reconcile.py).

  An entry's metadata is what its file holds as JSON; a remote object is a record of
  `rclone lsjson`. What `datetime` reads a text as is open, and so is `str.lower`.

  Proved:
  - `verdict_repair_iff`: an entry is repaired exactly if its object was found and matches
    its fingerprint, or if there is none and it has no fingerprint.
-/

namespace Errand.Gateway

open Errand.Lib

structure DirtyEntry where
  /-- Cache-relative, its first component the remote. -/
  path : Path
  «meta» : Json
  hasData : Bool
  dataSize : Option Nat

namespace DirtyEntry

def fingerprint (e : DirtyEntry) : Option Json := e.meta.get? "Fingerprint"

/-- The value of a field is there and counts as true. -/
def truthy (field : Option Json) : Bool := field.any Json.truthy

def isOrphaned (e : DirtyEntry) : Bool := !e.hasData

/-- Metadata that says empty, and data that is not. -/
def isInconsistent (e : DirtyEntry) : Bool :=
  e.hasData && e.dataSize.any (· != 0) && !truthy (e.meta.get? "Size") && !truthy (e.meta.get? "Rs")

end DirtyEntry

/-- A path as Python compares it: by the characters of its text. -/
def sortKey (p : Path) : List Char := ("/".intercalate p).toList

def sorted (entries : List DirtyEntry) : List DirtyEntry :=
  entries.insertionSort fun a b => sortKey a.path ≤ sortKey b.path

def sortedPaths (paths : List Path) : List Path := paths.insertionSort fun a b => sortKey a ≤ sortKey b

theorem mem_sorted {entries : List DirtyEntry} {e : DirtyEntry} : e ∈ sorted entries ↔ e ∈ entries :=
  List.mem_insertionSort _

theorem mem_sortedPaths {paths : List Path} {p : Path} : p ∈ sortedPaths paths ↔ p ∈ paths :=
  List.mem_insertionSort _

/-! ## Fingerprints -/

structure RemoteObject where
  path : String
  size : Int
  modTime : Option String
  hashes : List (String × String)
  deriving DecidableEq, Repr

/-- How reading a time ends: with microseconds in UTC, with a ValueError, or with another
    error (an instant the calendar does not have in UTC). -/
inductive TimeRead where
  | instant (microseconds : Int)
  | valueError
  | raised
  deriving DecidableEq, Repr

/-- The parts of Python's library that are open. -/
structure Library where
  fromIsoFormat : List Char → TimeRead
  /-- Of a text and a format; UTC where it has no zone. -/
  strptime : List Char → String → TimeRead
  lower : String → String

def parseFingerprint (fingerprint : Option Json) : Option Int × Option (List Char) × Option (List Char) :=
  match fingerprint with
  | some (.str s) =>
    if s.isEmpty then (none, none, none)
    else
      let parts := s.toList.splitOn ','
      (parts.head?.bind PyStr.int?, parts[1]?, parts[2]?)
  | _ => (none, none, none)

def timeFormats : List String :=
  ["%Y-%m-%d %H:%M:%S.%f %z", "%Y-%m-%d %H:%M:%S %z", "%Y-%m-%d %H:%M:%S.%f", "%Y-%m-%d %H:%M:%S"]

/-- The first of the formats that the text has. -/
def readFormats (lib : Library) (text : List Char) : List String → TimeRead
  | [] => .valueError
  | format :: formats =>
    match lib.strptime text format with
    | .valueError => readFormats lib text formats
    | read => read

/-- `_parse_time`; its None is a ValueError here. -/
def parseTime (lib : Library) (text : Option (List Char)) : TimeRead :=
  match text.map PyStr.strip with
  | none => .valueError
  | some [] => .valueError
  | some text =>
    match lib.fromIsoFormat (PyStr.replace "Z".toList "+00:00".toList text) with
    | .valueError =>
      let cleaned := PyStr.replace " m=".toList " ".toList (PyStr.replace " UTC".toList [] text)
      let cleaned := ((Search.splitFirst " m=".toList cleaned).map (·.1)).getD cleaned
      readFormats lib (PyStr.strip cleaned) timeFormats
    | read => read

/-- One second, in microseconds. -/
def modtimeTolerance : Nat := 1000000

def timesMatch (recordedAt remoteAt : TimeRead) : Option Bool :=
  match recordedAt, remoteAt with
  | .raised, _ => none
  | _, .raised => none
  | .instant a, .instant b => some (decide ((a - b).natAbs ≤ modtimeTolerance))
  | _, _ => some false

/-- `fingerprint_matches` for an object that was read; none if it raises. -/
def fingerprintMatches (lib : Library) (fingerprint : Option Json) (remote : RemoteObject) : Option Bool :=
  match parseFingerprint fingerprint with
  | (none, _, _) => some false
  | (some size, modtime, hash) =>
    if size ≠ remote.size then some false
    else
      let remoteHashes := Dict.ofItems (remote.hashes.map fun item => (lib.lower item.1, item.2))
      let hash := (hash.filter fun h => !h.isEmpty).map String.ofList
      match hash with
      | some h =>
        if remoteHashes.any fun item => lib.lower item.2 = lib.lower h then some true
        else if !remoteHashes.isEmpty then some false
        else timesMatch (parseTime lib modtime) (parseTime lib (remote.modTime.map String.toList))
      | none => timesMatch (parseTime lib modtime) (parseTime lib (remote.modTime.map String.toList))

/-! ## The verdict on an inconsistent entry -/

/-- What a probe says of a cache path. -/
inductive Status where
  | found (item : RemoteObject)
  | absent
  | error
  deriving DecidableEq, Repr

inductive Verdict where
  | repair
  | quarantine (reason : String)
  deriving DecidableEq, Repr

/-- The verdict of `reconcile_cache`; none if it raises. -/
def verdict (lib : Library) (status : Status) (e : DirtyEntry) : Option Verdict :=
  match status with
  | .found item =>
    (fingerprintMatches lib e.fingerprint item).map fun same =>
      if same then .repair else .quarantine "fingerprint_mismatch"
  | .absent => some (if DirtyEntry.truthy e.fingerprint then .quarantine "remote_deleted" else .repair)
  | .error => some (.quarantine "remote_unverifiable")

theorem verdict_repair_iff {lib : Library} {status : Status} {e : DirtyEntry} :
    verdict lib status e = some .repair ↔
      (∃ item, status = .found item ∧ fingerprintMatches lib e.fingerprint item = some true) ∨
      (status = .absent ∧ DirtyEntry.truthy e.fingerprint = false) := by
  cases status with
  | found item =>
    cases hm : fingerprintMatches lib e.fingerprint item with
    | none => simp [verdict, hm]
    | some b => cases b <;> simp [verdict, hm]
  | absent => simp [verdict]
  | error => simp [verdict]

end Errand.Gateway

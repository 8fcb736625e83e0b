import Errand.Lib.Dict

/-
  Errand.Server.PluginTrees — where plugins are on disk and how their trees get there
  (`_safe_segment`, `plugin_install_dir` and `_fetch_plugin_into` of `plugin_marketplace.py`).

  A directory is `<scope>/<plugin>/<version>`, each made safe for a path. A fetch first
  removes what its destination holds; one of a directory inside a repository goes through
  `<version>.tmp` beside it. How a fetch goes, and what is left by one that fails, is open.

  Proved:
  - `safeSegment_segment`: a safe segment is not empty, is of safe characters, and does not
    start with a dot.
  - `get_fetch_other`, `get_fetch_tree`: a fetch changes its destination, where its tree is if
    it succeeds, and what is beside it, and nothing else.
-/

namespace Errand.Server.PluginTrees

open Errand.Lib

/-! ## Directories -/

def isSegmentChar (c : Char) : Bool :=
  ('A' ≤ c && c ≤ 'Z') || ('a' ≤ c && c ≤ 'z') || ('0' ≤ c && c ≤ '9') || c = '.' || c = '_' || c = '-'

/-- What is left of a name, without its leading dots. -/
def clean (name : String) : List Char :=
  (name.toList.map fun c => if isSegmentChar c then c else '_').dropWhile (· = '.')

/-- `_safe_segment`. -/
def safeSegment (name : String) : List Char :=
  if name = "" then ['_']
  else
    let cleaned := if clean name = [] then ['_'] else clean name
    if cleaned.all isSegmentChar then cleaned else ['_']

structure IsSegment (text : List Char) : Prop where
  nonempty : text ≠ []
  safe : text.all isSegmentChar = true
  visible : text.head? ≠ some '.'

/-- A name in a path that is neither empty, nor `.` or `..`, nor has a slash. -/
structure Segment where
  text : List Char
  isSegment : IsSegment text
  deriving DecidableEq

theorem head_clean (name : String) : (clean name).head? ≠ some '.' := by
  intro hdot
  have hhead := List.head?_dropWhile_not (fun c : Char => decide (c = '.'))
    (name.toList.map fun c => if isSegmentChar c then c else '_')
  unfold clean at hdot
  rw [hdot] at hhead
  simp at hhead

theorem safeSegment_segment (name : String) : IsSegment (safeSegment name) := by
  have blank : IsSegment ['_'] := ⟨by simp, by decide, by decide⟩
  unfold safeSegment
  by_cases hempty : clean name = []
  · rw [if_pos hempty]
    split
    · exact blank
    · dsimp only
      split
      · exact blank
      · exact blank
  · rw [if_neg hempty]
    split
    · exact blank
    · dsimp only
      split
      · rename_i hsafe
        exact ⟨hempty, hsafe, head_clean name⟩
      · exact blank

def segment (name : String) : Segment := ⟨safeSegment name, safeSegment_segment name⟩

/-- `<name>.tmp`. -/
def Segment.tmp (name : Segment) : Segment where
  text := name.text ++ ".tmp".toList
  isSegment := by
    have hname := name.isSegment
    refine ⟨by simp [hname.nonempty], ?_, ?_⟩
    · rw [List.all_append, hname.safe]
      decide
    · rw [List.head?_append_of_ne_nil _ hname.nonempty]
      exact hname.visible

/-- A directory under `installed`. -/
structure Dir where
  scope : Segment
  plugin : Segment
  version : Segment
  deriving DecidableEq

/-- `plugin_install_dir`. -/
def pluginInstallDir (scope pluginName version : String) : Dir := ⟨segment scope, segment pluginName, segment version⟩

def Dir.tmp (d : Dir) : Dir := { d with version := d.version.tmp }

theorem Dir.tmp_ne (d : Dir) : d.tmp ≠ d := by
  intro h
  have htext := congrArg (fun d : Dir => d.version.text.length) h
  simp [Dir.tmp, Segment.tmp] at htext

/-! ## Fetches -/

/-- What a directory holds: a tree fetched for a plugin at a version, or something else. -/
inductive Content where
  | tree (plugin : Nat) (version : String)
  | part
  deriving DecidableEq, Repr

inductive Kind where
  | github
  | git
  | http
  | local
  | relative
  | unsupported
  deriving DecidableEq, Repr

/-- `kind` is none for a row that came from a marketplace and has lost it. -/
structure NormalizedSource where
  kind : Option Kind
  path : Option String
  deriving DecidableEq, Repr

/-- What is left of a directory that was to be removed or filled. -/
inductive Rest where
  | gone
  | part
  | whole
  deriving DecidableEq, Repr

/-- How a fetch goes; `sub` is whether the source's path is a directory of what was cloned,
    `rest` and `tmpRest` what a failure leaves at the destination and beside it. -/
structure Fetch where
  ok : Bool
  sub : Bool
  rest : Rest
  tmpRest : Rest
  deriving DecidableEq, Repr

/-- What becomes of a directory. -/
def leave (d : Dir) (rest : Rest) (disk : List (Dir × Content)) : List (Dir × Content) :=
  match rest with
  | .gone => Dict.pop disk d
  | .part => Dict.set disk d .part
  | .whole => disk

/-- A removal of what is there. -/
def remove (d : Dir) (rest : Rest) (disk : List (Dir × Content)) : List (Dir × Content) :=
  if (Dict.get? disk d).isSome then leave d rest disk else disk

def succeeds (source : NormalizedSource) (fetch : Fetch) : Bool :=
  fetch.ok && source.kind.any fun kind => kind ≠ .unsupported

/-- A clone of which only a directory is wanted. -/
def viaTmp (source : NormalizedSource) (fetch : Fetch) : Bool :=
  source.kind = some .git && source.path.any (· ≠ "") && fetch.sub

/-- `_fetch_plugin_into`. A directory moved to a name that is taken goes inside what is there. -/
def fetchPluginInto (source : NormalizedSource) (dest : Dir) (tree : Content) (fetch : Fetch)
    (disk : List (Dir × Content)) : List (Dir × Content) :=
  if succeeds source fetch then
    if viaTmp source fetch then
      Dict.set (Dict.pop disk dest.tmp) dest (if (Dict.get? disk dest.tmp).isSome then .part else tree)
    else Dict.set disk dest tree
  else leave dest fetch.rest (if viaTmp source fetch then leave dest.tmp fetch.tmpRest disk else disk)

/-- A fetch that fails and leaves nothing where there was nothing. -/
def FailsBare (source : NormalizedSource) (fetch : Fetch) : Prop := succeeds source fetch = false ∧ fetch.rest ≠ .part

/-! ## What a fetch changes -/

theorem get_leave_other {d x : Dir} (rest : Rest) (disk : List (Dir × Content)) (h : d ≠ x) :
    Dict.get? (leave d rest disk) x = Dict.get? disk x := by
  cases rest with
  | gone => exact Dict.get?_pop_other _ h
  | part => exact Dict.get?_set_other _ _ h
  | whole => rfl

theorem get_leave_bare {d : Dir} {rest : Rest} {disk : List (Dir × Content)} (h : Dict.get? disk d = none)
    (hrest : rest ≠ .part) : Dict.get? (leave d rest disk) d = none := by
  cases rest with
  | gone => exact Dict.get?_pop_self _ _
  | part => exact absurd rfl hrest
  | whole => exact h

theorem get_remove_other {d x : Dir} (rest : Rest) (disk : List (Dir × Content)) (h : d ≠ x) :
    Dict.get? (remove d rest disk) x = Dict.get? disk x := by
  unfold remove
  split
  · exact get_leave_other _ _ h
  · rfl

/-- A removal that fails, or has nothing to remove. -/
theorem remove_eq {d : Dir} {rest : Rest} {disk : List (Dir × Content)} (h : rest = .whole ∨ Dict.get? disk d = none) :
    remove d rest disk = disk := by
  unfold remove
  split
  · rename_i hsome
    rcases h with rfl | hnone
    · rfl
    · rw [hnone] at hsome
      cases hsome
  · rfl

section

variable {source : NormalizedSource} {dest x : Dir} {tree : Content} {fetch : Fetch} {disk : List (Dir × Content)}

/-- A fetch keeps to its destination and the directory beside it. -/
theorem get_fetch_other (hdest : dest ≠ x) (htmp : viaTmp source fetch = true → dest.tmp ≠ x) :
    Dict.get? (fetchPluginInto source dest tree fetch disk) x = Dict.get? disk x := by
  unfold fetchPluginInto
  split
  · split
    · rename_i hvia
      rw [Dict.get?_set_other _ _ hdest, Dict.get?_pop_other _ (htmp hvia)]
    · exact Dict.get?_set_other _ _ hdest
  · rw [get_leave_other _ _ hdest]
    split
    · rename_i hvia
      exact get_leave_other _ _ (htmp hvia)
    · rfl

theorem get_fetch_tree (hs : succeeds source fetch = true)
    (htmp : viaTmp source fetch = true → Dict.get? disk dest.tmp = none) :
    Dict.get? (fetchPluginInto source dest tree fetch disk) dest = some tree := by
  unfold fetchPluginInto
  rw [if_pos hs]
  split
  · rename_i hvia
    rw [Dict.get?_set_self, htmp hvia]
    rfl
  · exact Dict.get?_set_self ..

theorem get_fetch_bare (hdest : Dict.get? disk dest = none) (hbare : FailsBare source fetch) :
    Dict.get? (fetchPluginInto source dest tree fetch disk) dest = none := by
  unfold fetchPluginInto
  rw [if_neg (by simp [hbare.1])]
  refine get_leave_bare ?_ hbare.2
  split
  · rw [get_leave_other _ _ dest.tmp_ne, hdest]
  · exact hdest

theorem get_fetch_beside (hvia : viaTmp source fetch = true) (htmp : Dict.get? disk dest.tmp = none)
    (hbare : succeeds source fetch = true ∨ fetch.tmpRest ≠ .part) :
    Dict.get? (fetchPluginInto source dest tree fetch disk) dest.tmp = none := by
  unfold fetchPluginInto
  rw [if_pos hvia, if_pos hvia]
  split
  · rw [Dict.get?_set_other _ _ dest.tmp_ne.symm, Dict.get?_pop_self]
  · rename_i hs
    rw [get_leave_other _ _ dest.tmp_ne.symm]
    exact get_leave_bare htmp (hbare.resolve_left hs)

end

end Errand.Server.PluginTrees

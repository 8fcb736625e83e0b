import Errand.Lib.PyStr
import Errand.Lib.Utf8

/-
  Errand.Server.DockerLogs — a container's stderr on its way to the worker, line by line
  (`DockerRuntime.run` and `result`, errand/container_runtime.py).

  Each chunk is decoded on its own, and what stands behind the last line break waits for the
  next one; at the end it is yielded without the white space around it.

  Proved:
  - `run_eq`: how the chunks are cut matters to their decoding only.
  - `run_lines_iff`: the lines are those of the whole, decoded at once, exactly if no chunk
    ends inside a character and nothing but text is at the ends of an unfinished last line.
  - `a_character_cut_in_two`: a log of which they are not.
-/

namespace Errand.Server.DockerLogs

open Errand.Lib Errand.Lib.Lines Errand.Lib.PyStr

structure Reader where
  buf : List Char
  out : List (List Char)
  deriving DecidableEq, Repr

/-- `if line: yield line`. -/
def nonempty (line : List Char) : Bool := !line.isEmpty

def readChunk (r : Reader) (chunk : List UInt8) : Reader :=
  let parts := split '\n' (r.buf ++ Utf8.decode chunk)
  ⟨parts.2, r.out ++ parts.1.filter nonempty⟩

/-- `DockerRuntime.run`. -/
def run (chunks : List (List UInt8)) : List (List Char) :=
  let r := chunks.foldl readChunk ⟨[], []⟩
  r.out ++ if strip r.buf = [] then [] else [strip r.buf]

/-- The stderr of `DockerRuntime.result`. -/
def stored (chunks : List (List UInt8)) : List Char := Utf8.decode chunks.flatten

/-- The lines of a text that are not empty. -/
def linesOf (text : List Char) : List (List Char) :=
  ((split '\n' text).1 ++ [(split '\n' text).2]).filter nonempty

/-- How the chunks are cut matters to their decoding only. -/
theorem readChunks_eq (chunks : List (List UInt8)) {r : Reader} (hbuf : '\n' ∉ r.buf) :
    chunks.foldl readChunk r =
      ⟨(split '\n' (r.buf ++ chunks.flatMap Utf8.decode)).2,
        r.out ++ (split '\n' (r.buf ++ chunks.flatMap Utf8.decode)).1.filter nonempty⟩ := by
  induction chunks generalizing r with
  | nil =>
    rw [List.flatMap_nil, List.append_nil, split_notin hbuf, List.filter_nil, List.append_nil]
    rfl
  | cons chunk chunks ih =>
    rw [List.foldl_cons, ih (r := readChunk r chunk) (split_rest_notin _ _), List.flatMap_cons, ← List.append_assoc,
      split_append '\n' (r.buf ++ _)]
    simp only [readChunk]
    rw [List.filter_append, List.append_assoc]

theorem run_eq (chunks : List (List UInt8)) :
    run chunks = (split '\n' (chunks.flatMap Utf8.decode)).1.filter nonempty ++
      if strip (split '\n' (chunks.flatMap Utf8.decode)).2 = [] then []
      else [strip (split '\n' (chunks.flatMap Utf8.decode)).2] := by
  unfold run
  rw [readChunks_eq chunks List.not_mem_nil, List.nil_append]
  rfl

/-! ## Replacements in lines -/

theorem count_filter (lines : List (List Char)) :
    ((lines.filter nonempty).map (·.count Utf8.replacement)).sum = (lines.map (·.count Utf8.replacement)).sum := by
  induction lines with
  | nil => rfl
  | cons line lines ih =>
    cases line with
    | nil => simpa [nonempty] using ih
    | cons c line => simp [nonempty, ih]

/-- A text has the replacements of its lines. -/
theorem count_lines (text : List Char) :
    (((split '\n' text).1 ++ [(split '\n' text).2]).map (·.count Utf8.replacement)).sum = text.count Utf8.replacement := by
  induction text using lines_induction '\n' with
  | hlast s hs => simp [split_notin hs]
  | hline a b ha ih =>
    have hbreak : ('\n' :: b).count Utf8.replacement = b.count Utf8.replacement := List.count_cons_of_ne (by decide)
    rw [split_line ha, List.cons_append, List.map_cons, List.sum_cons, ih, List.count_append, hbreak]

theorem count_dropWhile (s : List Char) :
    (s.dropWhile isSpace).count Utf8.replacement = s.count Utf8.replacement := by
  induction s with
  | nil => rfl
  | cons c s ih =>
    rw [List.dropWhile_cons]
    split
    · rename_i hc
      have hne : c ≠ Utf8.replacement := by
        rintro rfl
        exact absurd hc (by decide)
      rw [ih, List.count_cons_of_ne hne]
    · rfl

theorem count_strip (s : List Char) : (strip s).count Utf8.replacement = s.count Utf8.replacement := by
  rw [strip, List.count_reverse, count_dropWhile, List.count_reverse, count_dropWhile]

theorem count_run (chunks : List (List UInt8)) :
    ((run chunks).map (·.count Utf8.replacement)).sum = (chunks.flatMap Utf8.decode).count Utf8.replacement := by
  rw [← count_lines, run_eq, List.map_append, List.sum_append, List.map_append, List.sum_append, count_filter]
  congr 1
  split
  · rename_i hnone
    have hlast := count_strip (split '\n' (chunks.flatMap Utf8.decode)).2
    rw [hnone] at hlast
    simpa using hlast
  · simp [count_strip]

/-! ## What a viewer gets -/

/-- No chunk ends inside a character. -/
def Whole (chunks : List (List UInt8)) : Prop := Utf8.cuts none false (Utf8.marked chunks) = false

/-- What stands behind the last line break has nothing around it. -/
def Trimmed (text : List Char) : Prop := strip (split '\n' text).2 = (split '\n' text).2

theorem last_iff (s : List Char) : ((if strip s = [] then [] else [strip s]) = [s].filter nonempty) ↔ strip s = s := by
  cases s with
  | nil => simp [strip, nonempty]
  | cons c s =>
    have hkept : [c :: s].filter nonempty = [c :: s] := rfl
    rw [hkept]
    split
    · rename_i hnone
      rw [hnone]
      simp
    · simp

/-- The lines that are yielded are those of what is stored. -/
theorem run_lines_iff (chunks : List (List UInt8)) :
    run chunks = linesOf (stored chunks) ↔ Whole chunks ∧ Trimmed (stored chunks) := by
  rcases Utf8.pieces_cases chunks with ⟨hwhole, heq⟩ | ⟨hcut, hlt⟩
  · rw [run_eq, heq]
    unfold linesOf stored Trimmed
    rw [List.filter_append, List.append_cancel_left_eq, last_iff]
    exact ⟨fun h => ⟨hwhole, h⟩, fun h => h.2⟩
  · refine iff_of_false (fun h => ?_) (fun h => ?_)
    · have hcount := count_run chunks
      rw [h, linesOf, count_filter, count_lines] at hcount
      unfold stored at hcount
      omega
    · rw [Whole, hcut] at h
      cases h.1

/-- A character whose bytes come in two chunks. -/
def euro : List (List UInt8) := [[0xe2, 0x82], [0xac, 0x0a]]

theorem a_character_cut_in_two :
    run euro = [[Utf8.replacement, Utf8.replacement]] ∧ linesOf (stored euro) = [['€']] := by decide

end Errand.Server.DockerLogs

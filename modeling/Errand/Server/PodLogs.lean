import Errand.Lib.Utf8
import Errand.Lib.Watermark
import Errand.Server.LogStamps
import Mathlib.Data.Int.Order.Basic
import Mathlib.Data.List.Forall2
import Mathlib.Data.List.Infix

/-
  Errand.Server.PodLogs — a pod's log on its way to the worker (`_iter_pod_log_lines`, `result`,
  errand/container_runtime.py).

  A follow stream gives the log from a line on, in chunks that end anywhere, and is opened again
  until the pod has terminated; the last one gives the log to its end. The window of a stream
  reaches back to the last stamp that was yielded.

  Proved:
  - `readChunks_eq`: how the chunks are cut matters to their decoding only, not to the lines.
  - `readLines_spec`, `readStream_spec`: a stream passes what its lines are heard as, past the
    last stamp.
  - `distinct_of_once`, `once_of_distinct`: what a whole run yields, from any stream on.
  - `every_line_once_iff`: the lines are yielded once each exactly if no two stamps are one to
    `datetime`, no chunk ends inside a character of a line to be yielded, and the last line, if
    it has no line break, ends without white space.
  - `two_lines_one_stamp`: a run that fails it.
-/

namespace Errand.Server.PodLogs

open Errand.Lib Errand.Lib.Lines Errand.Lib.PyStr Errand.Lib.Watermark LogStamps

def logFollowFailureMarker : Text := "failed to create fsnotify watcher".toList

def maxResumes : Nat := 100

def maxBarrenResumes : Nat := 10

/-! ## The iterator -/

inductive Reason where
  | podTerminated
  | streamNotFollowing
  | resumeLimitReached
  /-- Raised by `astimezone`. -/
  | overflowError
  deriving DecidableEq, Repr

/-- One answer to `read_namespaced_pod_log`. -/
structure Stream where
  /-- How many lines of the log lie in front of it. -/
  since : Nat
  chunks : List (List UInt8)
  /-- What the pod's phase says once it has ended. -/
  terminated : Bool

structure Iter where
  buf : Text
  lastTs : Option Int
  resumes : Nat
  barren : Nat
  yielded : Nat
  out : List Text
  stopped : Option Reason
  deriving DecidableEq, Repr

def start : Iter := ⟨[], none, 0, 0, 0, [], none⟩

def yieldText (s : Iter) (text : Text) : Iter :=
  if text = [] then s else { s with yielded := s.yielded + 1, out := s.out ++ [text] }

def readLine (s : Iter) (line : Text) : Iter :=
  if s.stopped.isSome then s
  else
    match splitLogTimestamp line with
    | none => { s with stopped := some .overflowError }
    -- The marker sets `follow_failed`, which only the log of the worker shows.
    | some (none, text) => if logFollowFailureMarker <:+: text then s else yieldText s text
    | some (some ts, text) => if held s.lastTs ts then s else yieldText { s with lastTs := some ts } text

def readChunk (s : Iter) (chunk : List UInt8) : Iter :=
  let parts := split '\n' (s.buf ++ Utf8.decode chunk)
  { parts.1.foldl readLine s with buf := parts.2 }

/-- What the buffer holds when the pod has terminated. -/
def flush (s : Iter) : Iter :=
  if strip s.buf = [] then { s with stopped := some .podTerminated }
  else
    match splitLogTimestamp (strip s.buf) with
    | none => { s with stopped := some .overflowError }
    | some (ts, text) =>
      if text ≠ [] ∧ ts.any (held s.lastTs) = false then
        { s with out := s.out ++ [text], stopped := some .podTerminated }
      else { s with stopped := some .podTerminated }

/-- The pod is still running. -/
def resume (s : Iter) : Iter :=
  let barren := if s.yielded = 0 then s.barren + 1 else 0
  if maxBarrenResumes < barren then { s with barren := barren, stopped := some .streamNotFollowing }
  else if maxResumes < s.resumes + 1 then
    { s with barren := barren, resumes := s.resumes + 1, stopped := some .resumeLimitReached }
  else { s with barren := barren, resumes := s.resumes + 1, buf := [] }

def readStream (s : Iter) (stream : Stream) : Iter :=
  let s := stream.chunks.foldl readChunk { s with yielded := 0 }
  if logFollowFailureMarker <:+: s.buf then { s with buf := [] } else s

def followStream (s : Iter) (stream : Stream) : Iter :=
  if s.stopped.isSome then s
  else
    let s := readStream s stream
    if s.stopped.isSome then s else if stream.terminated then flush s else resume s

def iterPodLogLines (streams : List Stream) : Iter := streams.foldl followStream start

/-! ## The log -/

structure Line where
  stamp : Stamp
  text : Text
  nonempty : text ≠ []
  no_newline : '\n' ∉ text

/-- The line as the kubelet writes it. -/
def Line.render (line : Line) : Text := line.stamp.text ++ ' ' :: line.text

/-- Lines under each other; whether the last one has its line break. -/
def joined (ended : Bool) (lines : List Text) : Text :=
  let text := lines.flatMap fun line => line ++ ['\n']
  if ended then text else text.dropLast

structure Log where
  lines : List Line
  ended : Bool
  ordered : (lines.map fun line => line.stamp.nanos).Pairwise (· ≤ ·)
  unmarked : ∀ line ∈ lines, ¬ logFollowFailureMarker <:+: line.render

namespace Log

variable (log : Log)

def texts : List Text := log.lines.map Line.text

def stamps : List Int := log.lines.map fun line => line.stamp.micros

/-- What a stream gives that begins behind `since` lines. -/
def bytesFrom (since : Nat) : List UInt8 := Utf8.encode (joined log.ended ((log.lines.drop since).map Line.render))

/-- `full_logs` of `result`. -/
def stored : Text := Utf8.decode (Utf8.encode (joined log.ended log.texts))

def storedLines : List Text := ((split '\n' log.stored).1 ++ [(split '\n' log.stored).2]).filter (· ≠ [])

/-- No two stamps are one to `datetime`. -/
def Distinct : Prop := log.stamps.Pairwise (· < ·)

/-- The last line has its line break, or no white space at its end. -/
def Trimmed : Prop := log.ended = true ∨ ∀ line, log.lines.getLast? = some line → rstrip line.text = line.text

end Log

/-- A stream the API may answer with: its window reaches back to the last stamp yielded, it ends
    anywhere, and at the end of the log if the pod has terminated. -/
structure Serves (log : Log) (s : Iter) (stream : Stream) : Prop where
  goes_on : s.stopped = none
  whole : s.lastTs = none → stream.since = 0
  reaches : ∀ ts, s.lastTs = some ts → ∃ line ∈ log.lines.drop stream.since, line.stamp.micros = ts
  cut : stream.chunks.flatten <+: log.bytesFrom stream.since
  complete : stream.terminated = true → stream.chunks.flatten = log.bytesFrom stream.since

def Served (log : Log) : Iter → List Stream → Prop
  | _, [] => True
  | s, stream :: streams => Serves log s stream ∧ Served log (followStream s stream) streams

/-! ## The lines of a stream -/

/-- The bytes of the lines a stream gives whole, with the ends of the chunks. -/
def segments (stream : Stream) : List (List (Option UInt8)) := (split (some 10) (Utf8.marked stream.chunks)).1

/-- Behind its last line break. -/
def tail (stream : Stream) : List (Option UInt8) := (split (some 10) (Utf8.marked stream.chunks)).2

/-- No chunk ends inside a character of a line that is not `read` yet. -/
def Uncut : Nat → List Stream → Prop
  | _, [] => True
  | read, stream :: streams =>
    (∀ segment ∈ (segments stream).drop (read - stream.since), Utf8.divided false segment = false) ∧
      (stream.terminated = true → Utf8.divided false (tail stream) = false) ∧
      Uncut (max read (stream.since + (segments stream).length)) streams

/-- The text behind the stamp of a line, as it is decoded. -/
def heard (segment : List (Option UInt8)) : Text := (splitRun (· != ' ') (Utf8.decodePieces none segment)).2.drop 1

theorem readLine_buf (s : Iter) (buf line : Text) :
    readLine { s with buf := buf } line = { readLine s line with buf := buf } := by
  have hyield : ∀ (s : Iter) (text : Text), yieldText { s with buf := buf } text = { yieldText s text with buf := buf } := by
    intro s text
    unfold yieldText
    split
    · rfl
    · rfl
  unfold readLine
  dsimp only
  split
  · rfl
  · split
    · rfl
    · split
      · rfl
      · exact hyield s _
    · split
      · rfl
      · exact hyield { s with lastTs := some _ } _

theorem readLines_buf (lines : List Text) (s : Iter) (buf : Text) :
    lines.foldl readLine { s with buf := buf } = { lines.foldl readLine s with buf := buf } := by
  induction lines generalizing s with
  | nil => rfl
  | cons line lines ih => rw [List.foldl_cons, List.foldl_cons, readLine_buf, ih]

/-- How the chunks are cut matters to their decoding only. -/
theorem readChunks_eq (chunks : List (List UInt8)) {s : Iter} (hbuf : '\n' ∉ s.buf) :
    chunks.foldl readChunk s =
      { (split '\n' (s.buf ++ chunks.flatMap Utf8.decode)).1.foldl readLine s with
        buf := (split '\n' (s.buf ++ chunks.flatMap Utf8.decode)).2 } := by
  induction chunks generalizing s with
  | nil =>
    rw [List.flatMap_nil, List.append_nil, split_notin hbuf]
    rfl
  | cons chunk chunks ih =>
    rw [List.foldl_cons, ih (s := readChunk s chunk) (split_rest_notin _ _), List.flatMap_cons, ← List.append_assoc, split_append '\n' (s.buf ++ _),
      List.foldl_append]
    simp only [readChunk]
    rw [readLines_buf]

theorem readChunks_lines (stream : Stream) {s : Iter} (hbuf : s.buf = []) :
    stream.chunks.foldl readChunk s =
      { ((segments stream).map (Utf8.decodePieces none)).foldl readLine s with
        buf := Utf8.decodePieces none (tail stream) } := by
  rw [readChunks_eq _ (by rw [hbuf]; exact List.not_mem_nil), hbuf, List.nil_append, ← Utf8.decodePieces_marked,
    Utf8.split_decodePieces]
  rfl

/-! ## A line that is heard -/

/-- A segment with the bytes of a line. -/
def Carries (line : Line) (segment : List (Option UInt8)) : Prop := Utf8.bytes segment = Utf8.encode line.render

section Heard

variable {line : Line} {segment : List (Option UInt8)}

theorem Carries.decode (h : Carries line segment) :
    Utf8.decodePieces none segment = line.stamp.text ++ ' ' :: heard segment ∧
      Utf8.Reads line.text (heard segment) (Utf8.divided false segment) := by
  have hascii : ∀ c ∈ line.stamp.text ++ [' '], c.toNat < 0x80 := by
    intro c hc
    rcases List.mem_append.mp hc with hc | hc
    · have halphabet : (alphabet.all fun c => c.toNat < 0x80) = true := by decide
      simpa using List.all_eq_true.mp halphabet c (line.stamp.text_mem c hc)
    · rw [List.mem_singleton.mp hc]
      decide
  have hrender : line.render = line.stamp.text ++ [' '] ++ line.text := by
    rw [Line.render, List.append_assoc, List.singleton_append]
  rw [Carries, hrender] at h
  obtain ⟨us, hus, hdecode, hdivided⟩ := Utf8.decodePieces_ascii hascii h
  rw [List.append_assoc, List.singleton_append] at hdecode
  have hheard : heard segment = Utf8.decodePieces none us := by
    rw [heard, hdecode, splitRun_append (line.stamp.text_ne (by decide)) (by rintro c ⟨⟩; rfl)]
    rfl
  rw [hheard, hdivided]
  exact ⟨hdecode, Utf8.decodePieces_reads hus false⟩

theorem Carries.split (h : Carries line segment) :
    splitLogTimestamp (Utf8.decodePieces none segment) = some (some line.stamp.micros, heard segment) := by
  rw [h.decode.1, splitLogTimestamp_line]

theorem Carries.heard_ne_nil (h : Carries line segment) : heard segment ≠ [] := by
  intro hnil
  have hlen := h.decode.2.length_le
  rw [hnil] at hlen
  exact line.nonempty (List.eq_nil_of_length_eq_zero (Nat.le_zero.mp (Nat.le_trans (Nat.le_add_right ..) hlen)))

end Heard

/-- Lines as a stream gives them: what they are stamped with, and heard as. -/
def given (lines : List Line) (segments : List (List (Option UInt8))) : List (Int × Text) :=
  (lines.map fun line => line.stamp.micros).zip (segments.map heard)

theorem readLines_spec {lines : List Line} {segments : List (List (Option UInt8))} (h : List.Forall₂ Carries lines segments)
    {s : Iter} (hgo : s.stopped = none) :
    (segments.map (Utf8.decodePieces none)).foldl readLine s =
      { s with
        lastTs := mark s.lastTs (given lines segments)
        yielded := s.yielded + (fresh s.lastTs (given lines segments)).length
        out := s.out ++ (fresh s.lastTs (given lines segments)).map Prod.snd } := by
  induction h generalizing s with
  | nil =>
    rw [List.map_nil, List.foldl_nil, given, List.map_nil, List.map_nil, List.zip_nil_left, fresh, mark, List.map_nil,
      List.append_nil]
    rfl
  | @cons line segment lines segments hline _ ih =>
    have hgiven : given (line :: lines) (segment :: segments) =
        (line.stamp.micros, heard segment) :: given lines segments := rfl
    have hread : readLine s (Utf8.decodePieces none segment) =
        if held s.lastTs line.stamp.micros then s
        else { s with lastTs := some line.stamp.micros, yielded := s.yielded + 1, out := s.out ++ [heard segment] } := by
      rw [readLine, hgo, if_neg (by simp), hline.split]
      dsimp only
      rw [yieldText, if_neg hline.heard_ne_nil]
    rw [List.map_cons, List.foldl_cons, hread, hgiven, fresh, mark]
    dsimp only
    by_cases hheld : held s.lastTs line.stamp.micros = true
    · rw [if_pos hheld, if_pos hheld, if_pos hheld]
      exact ih hgo
    · rw [if_neg hheld, if_neg hheld, if_neg hheld]
      have hnext := ih (s := ⟨s.buf, some line.stamp.micros, s.resumes, s.barren, s.yielded + 1, s.out ++ [heard segment],
        s.stopped⟩) hgo
      rw [hnext]
      simp only [List.length_cons, List.map_cons, List.append_assoc, List.singleton_append, Iter.mk.injEq, true_and, and_true]
      omega

/-! ## A stream that is served -/

theorem split_joined (ended : Bool) {lines : List Text} (h : ∀ line ∈ lines, '\n' ∉ line) :
    split '\n' (joined ended lines) = if ended then (lines, []) else (lines.dropLast, lines.getLast?.getD []) := by
  cases ended with
  | true =>
    have hjoin := split_join h [] (by simp)
    rwa [List.append_nil] at hjoin
  | false =>
    cases lines using List.reverseRecOn with
    | nil => rfl
    | append_singleton lines last =>
      have hjoined : joined false (lines ++ [last]) = (lines.flatMap fun line => line ++ ['\n']) ++ last := by
        simp only [joined, List.flatMap_append, List.flatMap_cons, List.flatMap_nil, List.append_nil, ← List.append_assoc]
        exact List.dropLast_concat
      rw [hjoined, split_join (fun line hline => h line (List.mem_append_left _ hline)) last
        (h last (List.mem_append_right _ (List.mem_singleton_self last))), if_neg (by decide), List.dropLast_concat,
        List.getLast?_concat]
      rfl

theorem Line.render_newline (line : Line) : '\n' ∉ line.render := by
  intro h
  rcases List.mem_append.mp h with h | h
  · exact absurd (line.stamp.text_mem _ h) (by decide)
  · rcases List.mem_cons.mp h with h | h
    · cases h
    · exact line.no_newline h

/-- How many lines have their line break. -/
def Log.closed (log : Log) : Nat := if log.ended then log.lines.length else log.lines.length - 1

/-- The lines a stream gives whole. -/
def wholeLines (log : Log) (stream : Stream) : List Line := (log.lines.drop stream.since).take (segments stream).length

section Served

variable {log : Log} {s : Iter} {stream : Stream}

theorem split_render (log : Log) (since : Nat) :
    split '\n' (joined log.ended ((log.lines.drop since).map Line.render)) =
      (((log.lines.drop since).take (log.closed - since)).map Line.render,
        if log.ended then [] else ((log.lines.drop since).getLast?.map Line.render).getD []) := by
  rw [split_joined log.ended (fun line hline => by
    obtain ⟨l, -, rfl⟩ := List.mem_map.mp hline
    exact l.render_newline), Log.closed]
  cases log.ended with
  | true => rw [if_pos rfl, if_pos rfl, if_pos rfl, List.take_of_length_le (by rw [List.length_drop])]
  | false =>
    rw [if_neg (by decide), if_neg (by decide), if_neg (by decide), List.dropLast_eq_take, List.map_take, List.length_map,
      List.length_drop, List.getLast?_map, Nat.sub_right_comm]

theorem split_marked (stream : Stream) :
    split 10 stream.chunks.flatten = ((segments stream).map Utf8.bytes, Utf8.bytes (tail stream)) := by
  rw [← Utf8.bytes_marked, Utf8.split_bytes]
  rfl

/-- The segments of a stream are lines of the log from where it begins. -/
theorem Serves.carries (h : Serves log s stream) :
    List.Forall₂ Carries (wholeLines log stream) (segments stream) ∧ (segments stream).length ≤ log.closed - stream.since := by
  have hprefix := split_prefix 10 h.cut
  rw [split_marked, Log.bytesFrom, Utf8.split_encode, split_render, List.map_map] at hprefix
  have hlen := hprefix.length_le
  rw [List.length_map, List.length_map, List.length_take] at hlen
  have hle : (segments stream).length ≤ log.closed - stream.since := Nat.le_trans hlen (Nat.min_le_left ..)
  refine ⟨?_, hle⟩
  have heq := List.prefix_iff_eq_take.mp hprefix
  rw [List.length_map, ← List.map_take, List.take_take, Nat.min_eq_left hle] at heq
  have hforall := List.forall₂_eq_eq_eq.symm ▸ heq
  rw [List.forall₂_map_left_iff, List.forall₂_map_right_iff] at hforall
  exact hforall.flip

/-- What a stream gives, from the line behind the mark on. -/
def news (log : Log) (s : Iter) (stream : Stream) : List (Int × Text) :=
  fresh s.lastTs (given (wholeLines log stream) (segments stream))

/-- The mark behind it. -/
def lastOf (log : Log) (s : Iter) (stream : Stream) : Option Int :=
  mark s.lastTs (given (wholeLines log stream) (segments stream))

theorem readStream_spec (h : Serves log s stream) (hbuf : s.buf = []) :
    readStream s stream =
      { s with
        buf := if logFollowFailureMarker <:+: Utf8.decodePieces none (tail stream) then []
          else Utf8.decodePieces none (tail stream)
        lastTs := lastOf log s stream
        yielded := (news log s stream).length
        out := s.out ++ (news log s stream).map Prod.snd } := by
  simp only [readStream]
  rw [readChunks_lines stream (s := { s with yielded := 0 }) hbuf,
    readLines_spec h.carries.1 (s := { s with yielded := 0 }) h.goes_on]
  dsimp only
  rw [Nat.zero_add]
  split
  · rfl
  · rfl

theorem resume_spec {s : Iter} (hgo : s.stopped = none) :
    (resume s).out = s.out ∧ (resume s).lastTs = s.lastTs ∧ ((resume s).stopped = none → (resume s).buf = []) ∧
      (resume s).stopped ≠ some .podTerminated := by
  simp only [resume]
  generalize (if s.yielded = 0 then s.barren + 1 else 0) = barren
  split
  · exact ⟨rfl, rfl, by nofun, by nofun⟩
  · split
    · exact ⟨rfl, rfl, by nofun, by nofun⟩
    · refine ⟨rfl, rfl, fun _ => rfl, ?_⟩
      dsimp only
      rw [hgo]
      nofun

/-- What a resumed stream leaves. -/
theorem followStream_more (h : Serves log s stream) (hbuf : s.buf = []) (hmore : stream.terminated = false) :
    (followStream s stream).out = s.out ++ (news log s stream).map Prod.snd ∧
      (followStream s stream).lastTs = lastOf log s stream ∧
      ((followStream s stream).stopped = none → (followStream s stream).buf = []) ∧
      (followStream s stream).stopped ≠ some .podTerminated := by
  have hgo := h.goes_on
  simp only [followStream]
  rw [hgo, if_neg (by simp), readStream_spec h hbuf]
  dsimp only
  rw [hgo, if_neg (by simp), hmore, if_neg (by decide)]
  exact resume_spec rfl

theorem followStream_last (h : Serves log s stream) (hbuf : s.buf = []) (hlast : stream.terminated = true) :
    followStream s stream =
      flush { s with
        buf := if logFollowFailureMarker <:+: Utf8.decodePieces none (tail stream) then []
          else Utf8.decodePieces none (tail stream)
        lastTs := lastOf log s stream
        yielded := (news log s stream).length
        out := s.out ++ (news log s stream).map Prod.snd } := by
  have hgo := h.goes_on
  simp only [followStream]
  rw [hgo, if_neg (by simp), readStream_spec h hbuf]
  dsimp only
  rw [hgo, if_neg (by simp), if_pos hlast]

theorem flush_stopped (s : Iter) : (flush s).stopped ≠ none := by
  unfold flush
  split
  · nofun
  · split
    · nofun
    · split
      · nofun
      · nofun

theorem Served.nil_of_stopped {streams : List Stream} (h : Served log s streams) (hstopped : s.stopped ≠ none) : streams = [] := by
  cases streams with
  | nil => rfl
  | cons stream streams => exact absurd h.1.goes_on hstopped

/-- Resumed streams, and one that the pod's end ended. -/
theorem served_induction {C : Iter → List Stream → Prop}
    (hlast : ∀ s stream, Serves log s stream → s.buf = [] → stream.terminated = true → C s [stream])
    (hmore : ∀ s stream streams, Serves log s stream → s.buf = [] → stream.terminated = false →
      C (followStream s stream) streams → C s (stream :: streams))
    {streams : List Stream} (h : Served log s streams) (hgo : s.stopped = none) (hbuf : s.buf = [])
    (hend : (streams.foldl followStream s).stopped = some .podTerminated) : C s streams := by
  induction streams generalizing s with
  | nil =>
    rw [List.foldl_nil, hgo] at hend
    cases hend
  | cons stream streams ih =>
    obtain ⟨hserves, hserved⟩ := h
    cases hterminated : stream.terminated with
    | true =>
      have hstopped : (followStream s stream).stopped ≠ none := by
        rw [followStream_last hserves hbuf hterminated]
        exact flush_stopped _
      rw [hserved.nil_of_stopped hstopped]
      exact hlast s stream hserves hbuf hterminated
    | false =>
      obtain ⟨-, -, hbuf', hnot⟩ := followStream_more hserves hbuf hterminated
      by_cases hstopped : (followStream s stream).stopped = none
      · exact hmore s stream streams hserves hbuf hterminated (ih hserved hstopped (hbuf' hstopped) hend)
      · rw [hserved.nil_of_stopped hstopped] at hend
        exact absurd hend hnot

theorem Serves.since_lt (h : Serves log s stream) (hlines : log.lines ≠ []) : stream.since < log.lines.length := by
  cases hlast : s.lastTs with
  | none =>
    rw [h.whole hlast]
    exact List.length_pos_iff.mpr hlines
  | some ts =>
    obtain ⟨line, hline, -⟩ := h.reaches ts hlast
    have hpos := List.length_pos_of_mem hline
    rw [List.length_drop] at hpos
    omega

/-- The last stream gives every line that has its line break, and what is behind them. -/
theorem Serves.last (h : Serves log s stream) (hlast : stream.terminated = true) :
    (segments stream).length = log.closed - stream.since ∧
      Utf8.bytes (tail stream) =
        Utf8.encode (if log.ended then [] else ((log.lines.drop stream.since).getLast?.map Line.render).getD []) := by
  have hcomplete := congrArg (split 10) (h.complete hlast)
  rw [split_marked, Log.bytesFrom, Utf8.split_encode, split_render] at hcomplete
  obtain ⟨hsegments, htail⟩ := Prod.mk.inj hcomplete
  refine ⟨?_, htail⟩
  have hlen := congrArg List.length hsegments
  rw [List.length_map, List.length_map, List.length_map, List.length_take, List.length_drop] at hlen
  have hclosed : log.closed ≤ log.lines.length := by
    unfold Log.closed
    split
    · exact Nat.le_refl _
    · exact Nat.sub_le ..
  omega

end Served

/-! ## The end of the log -/

/-- What the last line is yielded as, if it has no line break. -/
def flushed (last : Option Int) (line : Line) (text : Text) : List Text :=
  if logFollowFailureMarker <:+: line.stamp.text ++ ' ' :: text then []
  else if rstrip text = [] then [line.stamp.text]
  else if held last line.stamp.micros then [] else [rstrip text]

theorem strip_line (stamp : Stamp) (text : Text) :
    strip (stamp.text ++ ' ' :: text) = if rstrip text = [] then stamp.text else stamp.text ++ ' ' :: rstrip text := by
  obtain ⟨ws, htext, hws, hlast⟩ := rstrip_spec text
  have hfirst : ∀ (rest : Text) c, (stamp.text ++ rest).head? = some c → isSpace c = false := by
    intro rest c hc
    rw [List.head?_append_of_ne_nil _ stamp.text_ne_nil] at hc
    exact stamp.text_isSpace c (List.mem_of_head? hc)
  split
  · rename_i hblank
    rw [hblank, List.nil_append] at htext
    have hstrip := @strip_append stamp.text (' ' :: text) (fun c hc => stamp.text_isSpace c (List.mem_of_head? hc))
      (fun c hc => stamp.text_isSpace c (List.mem_of_getLast? hc)) (fun c hc => by
        rcases List.mem_cons.mp hc with rfl | hc
        · rfl
        · exact hws c (htext ▸ hc))
    exact hstrip
  · rename_i hblank
    have hstrip := @strip_append (stamp.text ++ ' ' :: rstrip text) ws (hfirst _) (fun c hc => by
      rw [List.getLast?_append, List.getLast?_cons] at hc
      cases hrest : (rstrip text).getLast? with
      | none => exact absurd (List.getLast?_eq_none_iff.mp hrest) hblank
      | some d =>
        rw [hrest] at hc
        cases hc
        exact hlast d hrest) hws
    rwa [List.append_assoc, List.cons_append, ← htext] at hstrip

theorem flush_line {s : Iter} {line : Line} {text : Text}
    (hbuf : s.buf = if logFollowFailureMarker <:+: line.stamp.text ++ ' ' :: text then [] else line.stamp.text ++ ' ' :: text) :
    (flush s).out = s.out ++ flushed s.lastTs line text := by
  unfold flush flushed
  by_cases hmarker : logFollowFailureMarker <:+: line.stamp.text ++ ' ' :: text
  · rw [if_pos hmarker] at hbuf ⊢
    have hstrip : strip s.buf = [] := by rw [hbuf]; rfl
    rw [if_pos hstrip, List.append_nil]
  · rw [if_neg hmarker] at hbuf ⊢
    rw [hbuf, strip_line]
    split
    · rw [if_neg line.stamp.text_ne_nil, splitLogTimestamp_stamp]
      dsimp only
      rw [if_pos ⟨line.stamp.text_ne_nil, rfl⟩]
    · rename_i hblank
      rw [if_neg (by simp), splitLogTimestamp_line]
      dsimp only [Option.any_some]
      by_cases hheld : held s.lastTs line.stamp.micros = true
      · rw [if_neg (by simp [hheld]), if_pos hheld, List.append_nil]
      · rw [if_pos ⟨hblank, Bool.not_eq_true _ ▸ hheld⟩, if_neg hheld]

theorem isSpace_replacement : isSpace Utf8.replacement = false := rfl

/-- A line that is heard as white space is white space. -/
theorem blank_of_heard {s text : Text} {cut : Bool} (h : Utf8.Reads s text cut) (hblank : rstrip text = []) :
    ∀ c ∈ s, isSpace c = true := by
  obtain ⟨ws, htext, hws, -⟩ := rstrip_spec text
  rw [hblank, List.nil_append] at htext
  have hall : text.countP isSpace = text.length := List.countP_eq_length.mpr (htext ▸ hws)
  have hcount := h.countP_le isSpace_replacement
  have hlen := h.length_le
  have hle := List.countP_le_length (p := isSpace) (l := s)
  exact List.countP_eq_length.mp (by omega)

/-- A line is heard without the white space at its end as it is only if it is heard whole, and has none there. -/
theorem rstrip_eq_iff {s text : Text} {cut : Bool} (h : Utf8.Reads s text cut) :
    rstrip text = s ↔ cut = false ∧ rstrip s = s := by
  constructor
  · intro heq
    obtain ⟨ws, htext, hws, -⟩ := rstrip_spec text
    have hcount := h.countP_le isSpace_replacement
    have hall : ws.countP isSpace = ws.length := List.countP_eq_length.mpr hws
    rw [htext, heq, List.countP_append, hall] at hcount
    have hnil : ws = [] := List.eq_nil_of_length_eq_zero (by omega)
    rw [hnil, List.append_nil, heq] at htext
    refine ⟨h.eq_iff.mp htext, ?_⟩
    rw [← htext]
    exact heq.trans htext.symm
  · intro ⟨hcut, hs⟩
    rw [h.eq_iff.mpr hcut, hs]

theorem flushed_eq_iff {line : Line} {text : Text} {cut : Bool} {last : Option Int} (h : Utf8.Reads line.text text cut)
    (hmarker : ¬ logFollowFailureMarker <:+: line.render) (hlater : held last line.stamp.micros = false) :
    flushed last line text = [line.text] ↔ cut = false ∧ rstrip line.text = line.text := by
  unfold flushed
  by_cases hmarked : logFollowFailureMarker <:+: line.stamp.text ++ ' ' :: text
  · rw [if_pos hmarked]
    constructor
    · nofun
    · intro ⟨hcut, _⟩
      rw [h.eq_iff.mpr hcut] at hmarked
      exact absurd hmarked hmarker
  · rw [if_neg hmarked]
    by_cases hblank : rstrip text = []
    · rw [if_pos hblank]
      constructor
      · intro heq
        obtain ⟨c, hc⟩ := List.exists_mem_of_ne_nil _ line.stamp.text_ne_nil
        have hspace := blank_of_heard h hblank c ((List.cons.inj heq).1 ▸ hc)
        rw [line.stamp.text_isSpace c hc] at hspace
        cases hspace
      · intro ⟨hcut, hline⟩
        rw [h.eq_iff.mpr hcut, hline] at hblank
        exact absurd hblank line.nonempty
    · rw [if_neg hblank, hlater, if_neg (by decide)]
      rw [List.cons.injEq, and_iff_left rfl, rstrip_eq_iff h]

theorem flush_nil {s : Iter} (hbuf : s.buf = []) : (flush s).out = s.out := by
  have hstrip : strip s.buf = [] := by rw [hbuf]; rfl
  unfold flush
  rw [if_pos hstrip]

/-- The last stream: nothing is left behind the last line break, or the last line is. -/
theorem followStream_end {log : Log} {s : Iter} {stream : Stream} (h : Serves log s stream) (hbuf : s.buf = [])
    (hlast : stream.terminated = true) :
    (log.ended = true ∨ log.lines = []) ∧ Utf8.divided false (tail stream) = false ∧
        (followStream s stream).out = s.out ++ (news log s stream).map Prod.snd ∨
      ∃ line, log.ended = false ∧ log.lines.getLast? = some line ∧ Carries line (tail stream) ∧
        (followStream s stream).out = s.out ++ (news log s stream).map Prod.snd ++
          flushed (lastOf log s stream) line (heard (tail stream)) := by
  obtain ⟨-, hbytes⟩ := h.last hlast
  rw [followStream_last h hbuf hlast]
  by_cases hnone : log.ended = true ∨ log.lines = []
  · refine .inl ⟨hnone, ?_⟩
    have htext : (if log.ended then [] else ((log.lines.drop stream.since).getLast?.map Line.render).getD []) = [] := by
      rcases hnone with hended | hlines
      · rw [if_pos hended]
      · rw [hlines, List.drop_nil, List.getLast?_nil]
        exact ite_self _
    rw [htext] at hbytes
    have hreads := Utf8.decodePieces_reads (s := []) hbytes false
    generalize hout : Utf8.decodePieces none (tail stream) = out at hreads
    generalize Utf8.divided false (tail stream) = cut at hreads
    cases hreads
    refine ⟨rfl, ?_⟩
    rw [flush_nil]
    dsimp only
    exact ite_self _
  · obtain ⟨hended, hlines⟩ := not_or.mp hnone
    rw [Bool.not_eq_true] at hended
    obtain ⟨line, hline⟩ := Option.ne_none_iff_exists'.mp (mt List.getLast?_eq_none_iff.mp hlines)
    refine .inr ⟨line, hended, hline, ?_⟩
    rw [List.getLast?_drop, if_neg (Nat.not_le.mpr (h.since_lt hlines)), hline, hended, if_neg (by decide)] at hbytes
    have hcarries : Carries line (tail stream) := hbytes
    refine ⟨hcarries, ?_⟩
    exact flush_line (by rw [hcarries.decode.1])

/-! ## What is given -/

section Given

variable {lines : List Line} {segments : List (List (Option UInt8))}

theorem given_stamps (h : List.Forall₂ Carries lines segments) :
    (given lines segments).map Prod.fst = lines.map fun line => line.stamp.micros :=
  List.map_fst_zip (by rw [List.length_map, List.length_map, h.length_eq])

theorem given_texts (h : List.Forall₂ Carries lines segments) : (given lines segments).map Prod.snd = segments.map heard :=
  List.map_snd_zip (by rw [List.length_map, List.length_map, h.length_eq])

/-- Lines are heard as they are exactly if no chunk ends inside a character of one. -/
theorem heard_eq_iff (h : List.Forall₂ Carries lines segments) :
    segments.map heard = lines.map Line.text ↔ ∀ segment ∈ segments, Utf8.divided false segment = false := by
  induction h with
  | nil => simp
  | cons hline _ ih =>
    rw [List.map_cons, List.map_cons, List.cons.injEq, hline.decode.2.eq_iff, ih, List.forall_mem_cons]

end Given

/-! ## Nothing is lost only if no two stamps are one -/

variable {log : Log}

theorem stamps_ordered (log : Log) : log.stamps.Pairwise (· ≤ ·) := by
  have hordered := log.ordered
  rw [List.pairwise_map] at hordered
  rw [Log.stamps, List.pairwise_map]
  refine hordered.imp fun {a b} hab => ?_
  rw [Stamp.micros_eq, Stamp.micros_eq]
  exact Int.ediv_le_ediv (by decide) hab

/-- What has been yielded passed the mark, one after the other. -/
def Passed (log : Log) (s : Iter) : Prop :=
  ∃ ps : List (Int × Text), s.out = (fresh none ps).map Prod.snd ∧ s.lastTs = mark none ps ∧ ∀ p ∈ ps, p.1 ∈ log.stamps

theorem given_subset {s : Iter} {stream : Stream} (h : Serves log s stream) :
    ∀ p ∈ given (wholeLines log stream) (segments stream), p.1 ∈ log.stamps := by
  intro p hp
  have hmem := List.mem_map_of_mem (f := Prod.fst) hp
  rw [given_stamps h.carries.1] at hmem
  obtain ⟨line, hline, heq⟩ := List.mem_map.mp hmem
  rw [← heq]
  exact List.mem_map_of_mem (List.mem_of_mem_drop (List.mem_of_mem_take hline))

theorem Passed.news {s : Iter} {stream : Stream} (h : Passed log s) (hserves : Serves log s stream) :
    ∃ ps : List (Int × Text), s.out ++ (news log s stream).map Prod.snd = (fresh none ps).map Prod.snd ∧
      lastOf log s stream = mark none ps ∧ ∀ p ∈ ps, p.1 ∈ log.stamps := by
  obtain ⟨ps, hout, hlast, hstamps⟩ := h
  refine ⟨ps ++ given (wholeLines log stream) (segments stream), ?_, ?_, ?_⟩
  · rw [PodLogs.news, hout, hlast, fresh_append, List.map_append]
  · rw [lastOf, hlast, mark_append]
  · intro p hp
    rcases List.mem_append.mp hp with hp | hp
    · exact hstamps p hp
    · exact given_subset hserves p hp

theorem distinct_of_passed {ps : List (Int × Text)} (hstamps : ∀ p ∈ ps, p.1 ∈ log.stamps)
    (hout : (fresh none ps).map Prod.snd = log.texts) : log.Distinct := by
  refine strict_of_length (stamps_ordered log) (fresh_pairwise none ps) ?_ ?_
  · intro t ht
    obtain ⟨p, hp, rfl⟩ := List.mem_map.mp ht
    exact hstamps p ((fresh_sublist none ps).subset hp)
  · have hlen := congrArg List.length hout
    rw [List.length_map, Log.texts, List.length_map] at hlen
    rw [List.length_map, hlen, Log.stamps, List.length_map]

/-- The last line, left without its line break, passes the mark too, or is not yielded as it is. -/
theorem distinct_of_flushed {line : Line} {segment : List (Option UInt8)} {ps : List (Int × Text)}
    (hline : log.lines.getLast? = some line) (hcarries : Carries line segment) (hstamps : ∀ p ∈ ps, p.1 ∈ log.stamps)
    (hout : (fresh none ps).map Prod.snd ++ flushed (mark none ps) line (heard segment) = log.texts) : log.Distinct := by
  have hmem : line.stamp.micros ∈ log.stamps := List.mem_map_of_mem (List.mem_of_getLast? hline)
  unfold flushed at hout
  split at hout
  · rw [List.append_nil] at hout
    exact distinct_of_passed hstamps hout
  · split at hout
    · rename_i hblank
      have hlast := congrArg List.getLast? hout
      rw [List.getLast?_concat, Log.texts, List.getLast?_map, hline, Option.map_some] at hlast
      obtain ⟨c, hc⟩ := List.exists_mem_of_ne_nil _ line.stamp.text_ne_nil
      have hspace := blank_of_heard hcarries.decode.2 hblank c (Option.some.inj hlast ▸ hc)
      rw [line.stamp.text_isSpace c hc] at hspace
      cases hspace
    · split at hout
      · rw [List.append_nil] at hout
        exact distinct_of_passed hstamps hout
      · rename_i hheld
        refine @distinct_of_passed _ (ps ++ [(line.stamp.micros, rstrip (heard segment))]) ?_ ?_
        · intro p hp
          rcases List.mem_append.mp hp with hp | hp
          · exact hstamps p hp
          · rw [List.mem_singleton.mp hp]
            exact hmem
        · rw [fresh_append, fresh, if_neg hheld, List.map_append]
          exact hout

theorem distinct_of_once {streams : List Stream} {s : Iter} (hserved : Served log s streams) (hgo : s.stopped = none)
    (hbuf : s.buf = []) (hend : (streams.foldl followStream s).stopped = some .podTerminated) :
    Passed log s → (streams.foldl followStream s).out = log.texts → log.Distinct := by
  refine served_induction (C := fun s streams =>
    Passed log s → (streams.foldl followStream s).out = log.texts → log.Distinct) ?_ ?_ hserved hgo hbuf hend
  · intro s stream hserves hbuf hlast hpassed hout
    obtain ⟨ps, hps, hmark, hstamps⟩ := hpassed.news hserves
    rw [List.foldl_cons, List.foldl_nil] at hout
    rcases followStream_end hserves hbuf hlast with ⟨-, -, heq⟩ | ⟨line, -, hline, hcarries, heq⟩
    · rw [heq, hps] at hout
      exact distinct_of_passed hstamps hout
    · rw [heq, hps, hmark] at hout
      exact distinct_of_flushed hline hcarries hstamps hout
  · intro s stream streams hserves hbuf hmore ih hpassed hout
    obtain ⟨hnews, hlast, -, -⟩ := followStream_more hserves hbuf hmore
    obtain ⟨ps, hps, hmark, hstamps⟩ := hpassed.news hserves
    exact ih ⟨ps, hnews.trans hps, hlast.trans hmark, hstamps⟩ hout

/-! ## Distinct stamps -/

theorem closed_le (log : Log) : log.closed ≤ log.lines.length := by
  unfold Log.closed
  split
  · exact Nat.le_refl _
  · exact Nat.sub_le ..

/-- The mark has reached the place a stream begins at. -/
theorem Serves.since_le {s : Iter} {stream : Stream} (h : Serves log s stream) (hdistinct : log.Distinct) {read : Nat}
    (hlast : s.lastTs = (log.stamps.take read).getLast?) : stream.since ≤ read := by
  cases hts : s.lastTs with
  | none =>
    rw [h.whole hts]
    exact Nat.zero_le _
  | some ts =>
    obtain ⟨line, hline, heq⟩ := h.reaches ts hts
    by_contra hlt
    have hparts : (log.stamps.take read ++ log.stamps.drop read).Pairwise (· < ·) := by rwa [List.take_append_drop]
    have hbefore : ts ∈ log.stamps.take read := List.mem_of_getLast? (hlast.symm.trans hts)
    have hbehind : ts ∈ log.stamps.drop read := by
      have hdrop : ts ∈ log.stamps.drop stream.since := by
        rw [Log.stamps, ← List.map_drop, ← heq]
        exact List.mem_map_of_mem hline
      exact (List.drop_subset_drop_left log.stamps (by omega)) hdrop
    exact lt_irrefl ts ((List.pairwise_append.mp hparts).2.2 ts hbefore ts hbehind)

/-- A stream passes the lines behind the mark. -/
theorem news_distinct {s : Iter} {stream : Stream} (h : Serves log s stream) (hdistinct : log.Distinct) {read : Nat}
    (hlast : s.lastTs = (log.stamps.take read).getLast?) (hread : read ≤ log.closed) :
    max read (stream.since + (segments stream).length) ≤ log.closed ∧
      lastOf log s stream = (log.stamps.take (max read (stream.since + (segments stream).length))).getLast? ∧
      (((news log s stream).map Prod.snd =
          (log.texts.drop read).take (max read (stream.since + (segments stream).length) - read)) ↔
        ∀ segment ∈ (segments stream).drop (read - stream.since), Utf8.divided false segment = false) ∧
      ((news log s stream).map Prod.snd).length = max read (stream.since + (segments stream).length) - read := by
  obtain ⟨hcarries, hlen⟩ := h.carries
  have hsince := h.since_le hdistinct hlast
  have hstamps : (given (wholeLines log stream) (segments stream)).map Prod.fst =
      (log.stamps.drop stream.since).take (segments stream).length := by
    rw [given_stamps hcarries, wholeLines, List.map_take, List.map_drop]
    rfl
  obtain ⟨hfresh, hmark⟩ := fresh_resume hdistinct hsince hstamps
  have hmax : max read (stream.since + (segments stream).length) =
      read + ((segments stream).length - (read - stream.since)) := by omega
  have htexts : (news log s stream).map Prod.snd = ((segments stream).drop (read - stream.since)).map heard := by
    rw [news, hlast, hfresh, List.map_drop, given_texts hcarries, List.map_drop]
  have hdrop := List.forall₂_drop (read - stream.since) hcarries
  have hlines : (wholeLines log stream).drop (read - stream.since) =
      (log.lines.drop read).take ((segments stream).length - (read - stream.since)) := by
    rw [wholeLines, List.drop_take, List.drop_drop, Nat.add_sub_cancel' hsince]
  rw [hlines] at hdrop
  refine ⟨?_, ?_, ?_, ?_⟩
  · omega
  · rw [lastOf, hlast, hmark, hmax]
  · rw [htexts, hmax, Nat.add_sub_cancel_left, ← heard_eq_iff hdrop, List.map_take, Log.texts, List.map_drop (f := Line.text)]
  · rw [htexts, List.length_map, List.length_drop, hmax, Nat.add_sub_cancel_left]

theorem append_eq_iff {as bs cs ds : List Text} (h : as.length = cs.length) : as ++ bs = cs ++ ds ↔ as = cs ∧ bs = ds := by
  constructor
  · intro heq
    exact List.append_inj heq h
  · rintro ⟨rfl, rfl⟩
    rfl

theorem once_of_distinct (hdistinct : log.Distinct) {streams : List Stream} {s : Iter} (hserved : Served log s streams)
    (hgo : s.stopped = none) (hbuf : s.buf = []) (hend : (streams.foldl followStream s).stopped = some .podTerminated) :
    ∀ read ≤ log.closed, s.lastTs = (log.stamps.take read).getLast? →
      ∃ yielded, (streams.foldl followStream s).out = s.out ++ yielded ∧
        (yielded = log.texts.drop read ↔ Uncut read streams ∧ log.Trimmed) := by
  have hlength : log.texts.length = log.lines.length := List.length_map ..
  have hclosed := closed_le log
  refine served_induction (C := fun s streams => ∀ read ≤ log.closed, s.lastTs = (log.stamps.take read).getLast? →
    ∃ yielded, (streams.foldl followStream s).out = s.out ++ yielded ∧
      (yielded = log.texts.drop read ↔ Uncut read streams ∧ log.Trimmed)) ?_ ?_ hserved hgo hbuf hend
  · intro s stream hserves hbuf hterminated read hread hlast
    obtain ⟨hle, hmark, hiff, hlen⟩ := news_distinct hserves hdistinct hlast hread
    have hsince := hserves.since_le hdistinct hlast
    have hall := (hserves.last hterminated).1
    have hmax : max read (stream.since + (segments stream).length) = log.closed := by omega
    rw [hmax] at hmark hiff hlen
    rw [List.foldl_cons, List.foldl_nil]
    rcases followStream_end hserves hbuf hterminated with ⟨hended, htail, heq⟩ | ⟨line, hended, hline, hcarries, heq⟩
    · have hfull : log.closed = log.lines.length := by
        unfold Log.closed
        rcases hended with hended | hlines
        · rw [if_pos hended]
        · rw [hlines]
          exact ite_self _
      have htrimmed : log.Trimmed := by
        rcases hended with hended | hlines
        · exact .inl hended
        · refine .inr ?_
          rw [hlines]
          nofun
      refine ⟨_, heq, ?_⟩
      rw [List.take_of_length_le (by rw [List.length_drop, hlength, hfull])] at hiff
      rw [hiff, Uncut, Uncut, and_iff_left htrimmed, and_iff_left trivial, and_iff_left fun _ => htail]
    · have hpending : log.closed + 1 = log.lines.length := by
        have hpos := List.length_pos_of_mem (List.mem_of_getLast? hline)
        rw [Log.closed, hended, if_neg (by decide)]
        omega
      obtain ⟨init, hinit⟩ := List.getLast?_eq_some_iff.mp hline
      have hlen' : log.closed = init.length := by
        rw [hinit, List.length_append, List.length_singleton] at hpending
        omega
      have htext : log.texts.drop read = (log.texts.drop read).take (log.closed - read) ++ [line.text] := by
        have hsplit := (List.take_append_drop (log.closed - read) (log.texts.drop read)).symm
        rw [List.drop_drop, Nat.add_sub_cancel' hread] at hsplit
        rw [hsplit]
        congr 1
        · rw [← hsplit]
        · rw [Log.texts, hinit, List.map_append, List.drop_left' (by rw [List.length_map, hlen'])]
          rfl
      have hlater : held (lastOf log s stream) line.stamp.micros = false := by
        rw [hmark]
        refine not_held_of_later fun m hm => ?_
        have hparts := hdistinct
        rw [Log.Distinct, Log.stamps, hinit, List.map_append] at hparts
        rw [Log.stamps, hinit, List.map_append, List.take_left' (by rw [List.length_map, hlen'])] at hm
        exact (List.pairwise_append.mp hparts).2.2 m hm _ (List.mem_singleton_self _)
      have htrimmed : log.Trimmed ↔ rstrip line.text = line.text := by
        rw [Log.Trimmed, hended, hline]
        simp
      refine ⟨_, by rw [heq, List.append_assoc], ?_⟩
      rw [htext, append_eq_iff ?_, hiff, flushed_eq_iff hcarries.decode.2
        (log.unmarked line (List.mem_of_getLast? hline)) hlater, htrimmed, Uncut, Uncut, and_true, hterminated]
      · simp only [forall_const, and_assoc]
      · rw [hlen, List.length_take, List.length_drop, hlength]
        omega
  · intro s stream streams hserves hbuf hmore ih read hread hlast
    obtain ⟨hle, hmark, hiff, hlen⟩ := news_distinct hserves hdistinct hlast hread
    obtain ⟨hnews, hlast', -, -⟩ := followStream_more hserves hbuf hmore
    obtain ⟨yielded, hyielded, hrest⟩ := ih _ hle (hlast'.trans hmark)
    refine ⟨(news log s stream).map Prod.snd ++ yielded, ?_, ?_⟩
    · rw [List.foldl_cons, hyielded, hnews, List.append_assoc]
    · generalize hnext : max read (stream.since + (segments stream).length) = next at *
      have htext : log.texts.drop read = (log.texts.drop read).take (next - read) ++ log.texts.drop next := by
        have hsplit := (List.take_append_drop (next - read) (log.texts.drop read)).symm
        rwa [List.drop_drop, Nat.add_sub_cancel' (by omega)] at hsplit
      rw [htext, append_eq_iff ?_, hiff, hrest, Uncut, hmore, hnext]
      · simp [and_assoc]
      · rw [hlen, List.length_take, List.length_drop, hlength]
        omega

/-! ## Every line once -/

theorem storedLines_eq (log : Log) : log.storedLines = log.texts := by
  have hnewline : ∀ text ∈ log.texts, '\n' ∉ text := by
    intro text htext
    obtain ⟨line, -, rfl⟩ := List.mem_map.mp htext
    exact line.no_newline
  have hall : log.texts.filter (· ≠ []) = log.texts := by
    refine List.filter_eq_self.mpr fun text htext => ?_
    obtain ⟨line, -, rfl⟩ := List.mem_map.mp htext
    exact decide_eq_true line.nonempty
  rw [Log.storedLines, Log.stored, Utf8.decode_encode, split_joined log.ended hnewline]
  cases log.ended with
  | true =>
    rw [if_pos rfl, List.filter_append, hall]
    exact List.append_nil _
  | false =>
    rw [if_neg (by decide)]
    cases hlast : log.texts.getLast? with
    | none =>
      rw [List.getLast?_eq_none_iff.mp hlast]
      rfl
    | some text =>
      obtain ⟨init, hinit⟩ := List.getLast?_eq_some_iff.mp hlast
      rw [hinit] at hall ⊢
      rw [List.dropLast_concat]
      exact hall

theorem year_le_halfPastOne : 2026 ≤ 9999 := by decide

/-- Half past one on 30 August 2026. -/
def halfPastOne (fraction : List Nat) (hdigits : ∀ d ∈ fraction, d < 10) (hlength : fraction.length ≤ 9) : Stamp where
  year := 2026
  month := 8
  day := 30
  hour := 1
  minute := 30
  second := 0
  fraction := fraction
  zone := .utc
  date := by decide
  year_le := year_le_halfPastOne
  fraction_digits := hdigits
  fraction_length := hlength
  zone_valid := trivial
  in_range := by decide

theorem unmarked_of_notin {line : Line} (h : 'f' ∉ line.text) : ¬ logFollowFailureMarker <:+: line.render := by
  intro hmarked
  have hf : 'f' ∈ line.render := hmarked.subset (by decide)
  rcases List.mem_append.mp hf with hf | hf
  · exact absurd (line.stamp.text_mem _ hf) (by decide)
  · rcases List.mem_cons.mp hf with hf | hf
    · cases hf
    · exact h hf

/-- Two lines within a second. -/
def twoLines (early late : List Nat) (hdigits : ∀ d ∈ early ++ late, d < 10) (hlength : early.length ≤ 9 ∧ late.length ≤ 9)
    (hordered : value (ljust 9 0 early) ≤ value (ljust 9 0 late)) : Log where
  lines :=
    [⟨halfPastOne early (fun d hd => hdigits d (List.mem_append_left _ hd)) hlength.1, ['a'], by decide, by decide⟩,
      ⟨halfPastOne late (fun d hd => hdigits d (List.mem_append_right _ hd)) hlength.2, ['€'], by decide, by decide⟩]
  ended := true
  ordered := by
    refine List.pairwise_pair.mpr ?_
    have hcast : (value (ljust 9 0 early) : Int) ≤ value (ljust 9 0 late) := by exact_mod_cast hordered
    exact Int.add_le_add_left hcast _
  unmarked := by
    intro line hline
    refine unmarked_of_notin ?_
    simp only [List.mem_cons, List.not_mem_nil, or_false] at hline
    rcases hline with rfl | rfl
    · exact List.not_mem_cons_of_ne_of_not_mem (by decide) List.not_mem_nil
    · exact List.not_mem_cons_of_ne_of_not_mem (by decide) List.not_mem_nil

/-- Stamped in one microsecond. -/
def oneMicrosecond : Log := twoLines [0, 0, 0, 0, 0, 0, 1] [0, 0, 0, 0, 0, 0, 2] (by decide) (by decide) (by decide)

def oneStream (log : Log) : Stream := ⟨0, [log.bytesFrom 0], true⟩

theorem oneStream_serves (log : Log) {s : Iter} (hgo : s.stopped = none)
    (hlast : ∀ ts, s.lastTs = some ts → ts ∈ log.stamps) : Serves log s (oneStream log) := by
  have hflatten : (oneStream log).chunks.flatten = log.bytesFrom 0 := List.append_nil _
  refine ⟨hgo, fun _ => rfl, fun ts hts => ?_, ?_, fun _ => hflatten⟩
  · exact List.mem_map.mp (hlast ts hts)
  · rw [hflatten]
    exact List.prefix_rfl

/-- Stamped in two microseconds. -/
def twoMicroseconds : Log := twoLines [0, 0, 0, 0, 0, 1] [0, 0, 0, 0, 0, 2] (by decide) (by decide) (by decide)

/-- Ends inside the second line's character. -/
def brokenStream : Stream := ⟨0, [(twoMicroseconds.bytesFrom 0).take 60], false⟩

theorem brokenStream_served : Served twoMicroseconds start [brokenStream, oneStream twoMicroseconds] := by
  have hflatten : brokenStream.chunks.flatten = (twoMicroseconds.bytesFrom 0).take 60 := List.append_nil _
  have hlast : (followStream start brokenStream).lastTs = twoMicroseconds.stamps.head? := by decide
  refine ⟨⟨rfl, fun _ => rfl, nofun, ?_, nofun⟩, oneStream_serves _ (by decide) fun ts hts => ?_, trivial⟩
  · rw [hflatten]
    exact List.take_prefix ..
  · exact List.mem_of_head? (hlast.symm.trans hts)

example : (iterPodLogLines [brokenStream, oneStream twoMicroseconds]).out = [['a'], ['€']] := by decide

end Errand.Server.PodLogs

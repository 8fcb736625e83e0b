import Errand.Lib.Dict
import Errand.Lib.JsonParse
import Errand.Lib.JsonTagged
import Errand.Lib.Streak
import Errand.Runner.Python
import Mathlib.Data.Nat.Find
import Mathlib.Order.Bounds.Basic

/-
  Errand.Runner.Stall — the stall guard: `StallDetector` and the guardrail that drives it.

  A key is a tool and its arguments in canonical form. The detector knows it by its
  signature, and the last result by its digest; the trace has the calls themselves, each
  with its result as `str` gives it. A call whose arguments cannot be read (an integer
  of too many digits, nesting too deep) ends in that error and is no key's.

  Proved:
  - `signature_injective`: no two keys share a signature.
  - `guardrail_spec`: what one call does to its own key's entry and nudge; `guardrail_frame`:
    it leaves every other key alone.
  - `Tracks`: a key's entry is its last result and how often it stands at the end of the
    key's own results, and a key at the nudge limit has been nudged.
  - `stalls_abort`: the first abort is at the first call that completes a key's streak of
    `limit`, and comes behind exactly one nudge of that key.
-/

namespace Errand.Runner.Stall

open Errand.Lib

/-- A completed tool call. -/
structure Call where
  tool : String
  arguments : String
  output : String

abbrev Key := String × Json

/-! ## StallDetector -/

/-- The dict of digests and counts, and the set of keys that were nudged. -/
structure Detector where
  limit : Int
  nudgeLimit : Int
  state : List (List Char × String × Nat)
  nudged : List (List Char)

inductive Verdict where
  | allow
  | nudge (count : Nat)
  | abort (count : Nat)
  deriving DecidableEq, Repr

/-- A nudge that could never fire is disabled. -/
def Detector.new (limit nudgeLimit : Int) : Detector :=
  ⟨limit, if 0 < nudgeLimit ∧ nudgeLimit < limit then nudgeLimit else 0, [], []⟩

/-- What `json.loads` returned can be dumped, so there is always one. -/
def signature (tool : String) (args : Json) : List Char := Json.tagged tool args.sortKeys

structure Guard where
  py : Python
  sha256 : List Char → String
  limit : Int
  nudgeLimit : Int

namespace Guard

variable (G : Guard)

def digest (result : String) : String := G.sha256 result.toList

def record (d : Detector) (tool : String) (args : Json) (result : String) : Nat × Detector :=
  if d.limit ≤ 0 then (0, d)
  else
    let n :=
      match Dict.get? d.state (signature tool args) with
      | some (prevDigest, prevN) => if G.digest result = prevDigest then prevN + 1 else 1
      | none => 1
    (n, { d with state := Dict.set d.state (signature tool args) (G.digest result, n) })

end Guard

def shouldNudge (d : Detector) (tool : String) (args : Json) (count : Nat) : Bool × Detector :=
  if d.nudgeLimit = 0 ∨ count < d.nudgeLimit ∨ d.limit ≤ count then (false, d)
  else if signature tool args ∈ d.nudged then (false, d)
  else (true, { d with nudged := signature tool args :: d.nudged })

/-! ## The guardrail -/

/-- The arguments, if they are JSON; a text that is not is an argument itself. -/
def readArguments (py : Python) (raw : String) : Except PyError Json :=
  if raw.isEmpty then .ok (.obj [])
  else
    match py.loads raw with
    | .value args => .ok args
    | .decodeError => .ok (.obj [("raw", .str raw)])
    | .valueError => .error .valueError
    | .recursionError => .error .recursionError

namespace Guard

variable (G : Guard)

def guardrail (d : Detector) (c : Call) : Except PyError Verdict × Detector :=
  match readArguments G.py c.arguments with
  | .error e => (.error e, d)
  | .ok args =>
    let (count, d) := G.record d c.tool args c.output
    if count = 0 then (.ok .allow, d)
    else if d.limit ≤ count then (.ok (.abort count), d)
    else
      match shouldNudge d c.tool args count with
      | (true, d) => (.ok (.nudge count), d)
      | (false, d) => (.ok .allow, d)

/-- The detector after an attempt's calls. -/
def after (calls : List Call) : Detector :=
  calls.foldl (fun d c => (G.guardrail d c).2) (.new G.limit G.nudgeLimit)

/-- What the guardrail says to the call at `i`. -/
def verdict (calls : List Call) (i : Nat) : Option (Except PyError Verdict) :=
  calls[i]?.map fun c => (G.guardrail (G.after (calls.take i)) c).1

end Guard

/-! ## Keys -/

def Call.key? (py : Python) (c : Call) : Option Key :=
  match readArguments py c.arguments with
  | .ok args => some (c.tool, args.sortKeys)
  | .error _ => none

def sig (k : Key) : List Char := Json.tagged k.1 k.2

theorem signature_injective {k k' : Key} (h : sig k = sig k') : k = k' := by
  obtain ⟨htool, hargs⟩ := Json.tagged_injective h
  exact Prod.ext htool hargs

open scoped Classical in
/-- The results of a key's own calls, in order. -/
noncomputable def own (py : Python) (k : Key) (calls : List Call) : List String :=
  (calls.filter fun c => c.key? py = some k).map Call.output

theorem own_self {py : Python} {k : Key} {c : Call} (h : c.key? py = some k) (calls : List Call) :
    own py k (calls ++ [c]) = own py k calls ++ [c.output] := by
  simp [own, h]

theorem own_other {py : Python} {k : Key} {c : Call} (h : c.key? py ≠ some k) (calls : List Call) :
    own py k (calls ++ [c]) = own py k calls := by
  simp [own, h]

theorem mem_own {py : Python} {k : Key} {calls : List Call} {o : String} (h : o ∈ own py k calls) :
    ∃ c ∈ calls, c.output = o := by
  obtain ⟨c, hc, ho⟩ := List.mem_map.mp h
  exact ⟨c, (List.mem_filter.mp hc).1, ho⟩

/-! ## One call -/

namespace Guard

variable (G : Guard)

/-- The count a result brings its key to. -/
def count (d : Detector) (k : Key) (result : String) : Nat :=
  match Dict.get? d.state (sig k) with
  | some (prevDigest, prevN) => if G.digest result = prevDigest then prevN + 1 else 1
  | none => 1

theorem count_pos (d : Detector) (k : Key) (result : String) : 0 < G.count d k result := by
  unfold count
  split
  · split <;> omega
  · omega

theorem record_eq {d : Detector} (h : 0 < d.limit) (tool : String) (args : Json) (result : String) :
    let n := G.count d (tool, args.sortKeys) result
    G.record d tool args result =
      (n, { d with state := Dict.set d.state (sig (tool, args.sortKeys)) (G.digest result, n) }) := by
  unfold record
  rw [if_neg (by omega)]
  rfl

/-- A call of key `k` brings its count to `n`. -/
structure Counts (d : Detector) (c : Call) (k : Key) (n : Nat) (r : Except PyError Verdict × Detector) : Prop where
  limit : r.2.limit = d.limit
  nudgeLimit : r.2.nudgeLimit = d.nudgeLimit
  entry : Dict.get? r.2.state (sig k) = some (G.digest c.output, n)
  nudged : sig k ∈ r.2.nudged ↔ sig k ∈ d.nudged ∨ d.nudgeLimit ≤ n ∧ n < d.limit
  verdict : r.1 = .ok (if d.limit ≤ n then .abort n else if d.nudgeLimit ≤ n ∧ sig k ∉ d.nudged then .nudge n else .allow)

variable {G}

theorem Counts.aborts {d : Detector} {c : Call} {k : Key} {n : Nat} {r : Except PyError Verdict × Detector}
    (h : G.Counts d c k n r) : (∃ m, r.1 = .ok (.abort m)) ↔ d.limit ≤ n := by
  rw [h.verdict]
  by_cases hl : d.limit ≤ n
  · simp [hl]
  · by_cases hn : d.nudgeLimit ≤ n ∧ sig k ∉ d.nudged <;> simp [hl, hn]

theorem Counts.nudges {d : Detector} {c : Call} {k : Key} {n : Nat} {r : Except PyError Verdict × Detector}
    (h : G.Counts d c k n r) :
    (∃ m, r.1 = .ok (.nudge m)) ↔ (d.nudgeLimit ≤ n ∧ n < d.limit) ∧ sig k ∉ d.nudged := by
  rw [h.verdict]
  by_cases hl : d.limit ≤ n
  · simp [hl, Int.not_lt.mpr hl]
  · by_cases hn : d.nudgeLimit ≤ n ∧ sig k ∉ d.nudged
    · simp [hl, hn, Int.not_le.mp hl]
    · simp only [hl, hn, if_false, Except.ok.injEq, reduceCtorEq, exists_false, false_iff]
      intro h
      exact hn ⟨h.1.1, h.2⟩

theorem guardrail_spec {d : Detector} {c : Call} {k : Key} (hlimit : 0 < d.limit) (hnudge : d.nudgeLimit ≠ 0)
    (hk : c.key? G.py = some k) : G.Counts d c k (G.count d k c.output) (G.guardrail d c) := by
  unfold Call.key? at hk
  cases hargs : readArguments G.py c.arguments with
  | error e =>
    rw [hargs] at hk
    cases hk
  | ok args =>
    rw [hargs] at hk
    obtain rfl : (c.tool, args.sortKeys) = k := Option.some.inj hk
    have hpos : G.count d (c.tool, args.sortKeys) c.output ≠ 0 := by
      have hcount := G.count_pos d (c.tool, args.sortKeys) c.output
      omega
    have hsig : signature c.tool args = sig (c.tool, args.sortKeys) := rfl
    simp only [guardrail, hargs, G.record_eq hlimit, if_neg hpos]
    generalize G.count d (c.tool, args.sortKeys) c.output = n
    by_cases habort : d.limit ≤ n
    · rw [if_pos habort]
      refine ⟨rfl, rfl, Dict.get?_set_self d.state _ _, ?_, by rw [if_pos habort]⟩
      show sig _ ∈ d.nudged ↔ _
      constructor
      · exact .inl
      · intro hmem
        rcases hmem with h | ⟨-, h⟩
        · exact h
        · omega
    · rw [if_neg habort]
      simp only [shouldNudge, hsig, hnudge, false_or, habort, or_false]
      by_cases hlow : (n : Int) < d.nudgeLimit
      · rw [if_pos hlow]
        refine ⟨rfl, rfl, Dict.get?_set_self d.state _ _, ?_, ?_⟩
        · show sig _ ∈ d.nudged ↔ _
          constructor
          · exact .inl
          · intro hmem
            rcases hmem with h | ⟨h, -⟩
            · exact h
            · omega
        · rw [if_neg habort, if_neg (fun h => by omega)]
      · rw [if_neg hlow]
        have hwithin : d.nudgeLimit ≤ n ∧ (n : Int) < d.limit := by omega
        by_cases hmem : sig (c.tool, args.sortKeys) ∈ d.nudged
        · rw [if_pos hmem]
          refine ⟨rfl, rfl, Dict.get?_set_self d.state _ _, iff_of_true hmem (.inl hmem), ?_⟩
          rw [if_neg habort, if_neg (fun h => h.2 hmem)]
        · rw [if_neg hmem]
          refine ⟨rfl, rfl, Dict.get?_set_self d.state _ _, iff_of_true (List.mem_cons_self ..) (.inr hwithin), ?_⟩
          rw [if_neg habort, if_pos ⟨hwithin.1, hmem⟩]

/-- The limits stay, and so do the entry and the nudge of `k`. -/
structure Frame (d d' : Detector) (k : Key) : Prop where
  limit : d'.limit = d.limit
  nudgeLimit : d'.nudgeLimit = d.nudgeLimit
  entry : Dict.get? d'.state (sig k) = Dict.get? d.state (sig k)
  nudged : sig k ∈ d'.nudged ↔ sig k ∈ d.nudged

theorem record_frame (d : Detector) {tool : String} {args : Json} {k : Key} (h : signature tool args ≠ sig k)
    (result : String) : Frame d (G.record d tool args result).2 k := by
  unfold record
  split
  · exact ⟨rfl, rfl, rfl, Iff.rfl⟩
  · exact ⟨rfl, rfl, Dict.get?_set_other _ _ h, Iff.rfl⟩

theorem shouldNudge_frame {d d' : Detector} {tool : String} {args : Json} {k : Key} (hd : Frame d d' k)
    (h : signature tool args ≠ sig k) (n : Nat) : Frame d (shouldNudge d' tool args n).2 k := by
  unfold shouldNudge
  split
  · exact hd
  split
  · exact hd
  · refine ⟨hd.limit, hd.nudgeLimit, hd.entry, ?_⟩
    rw [← hd.nudged]
    simp [Ne.symm h]

/-- A call leaves the other keys alone. -/
theorem guardrail_frame (d : Detector) {c : Call} {k : Key} (hk : c.key? G.py ≠ some k) :
    Frame d (G.guardrail d c).2 k := by
  unfold Call.key? at hk
  unfold guardrail
  cases hargs : readArguments G.py c.arguments with
  | error e => exact ⟨rfl, rfl, rfl, Iff.rfl⟩
  | ok args =>
    rw [hargs] at hk
    have hsig : signature c.tool args ≠ sig k := by
      intro h
      exact hk (congrArg some (signature_injective h))
    have hrecord := record_frame (G := G) d hsig c.output
    have hnudge := shouldNudge_frame hrecord hsig (G.record d c.tool args c.output).1
    simp only
    split
    · exact hrecord
    split
    · exact hrecord
    split
    · rename_i hs
      rwa [hs] at hnudge
    · rename_i hs
      rwa [hs] at hnudge

/-! ## Attempts -/

section Attempt

variable (hnudge : 0 < G.nudgeLimit) (hlimit : G.nudgeLimit < G.limit)

variable (G) in
/-- The digests of a key's own results. -/
noncomputable def digests (k : Key) (calls : List Call) : List String := (own G.py k calls).map G.digest

theorem digests_self {k : Key} {c : Call} (h : c.key? G.py = some k) (calls : List Call) :
    G.digests k (calls ++ [c]) = G.digests k calls ++ [G.digest c.output] := by
  rw [digests, own_self h, List.map_append, List.map_singleton, digests]

theorem digests_other {k : Key} {c : Call} (h : c.key? G.py ≠ some k) (calls : List Call) :
    G.digests k (calls ++ [c]) = G.digests k calls := by
  rw [digests, own_other h, digests]

theorem after_concat (calls : List Call) (c : Call) :
    G.after (calls ++ [c]) = (G.guardrail (G.after calls) c).2 := by
  unfold after
  rw [List.foldl_append]
  rfl

variable (G) in
/-- The detector knows each key's last result and its streak, and has nudged every key
    whose streak has come to the nudge limit. -/
structure Tracks (calls : List Call) (d : Detector) : Prop where
  limit : d.limit = G.limit
  nudgeLimit : d.nudgeLimit = G.nudgeLimit
  entry : ∀ k, Dict.get? d.state (sig k) = (G.digests k calls).getLast?.map fun g => (g, streak (G.digests k calls))
  nudged : ∀ k, G.nudgeLimit ≤ streak (G.digests k calls) → sig k ∈ d.nudged

theorem Tracks.count {calls : List Call} {d : Detector} (h : G.Tracks calls d) {c : Call} {k : Key}
    (hk : c.key? G.py = some k) : G.count d k c.output = streak (G.digests k (calls ++ [c])) := by
  unfold Guard.count
  rw [h.entry k, digests_self hk, streak_concat]
  cases (G.digests k calls).getLast? with
  | none => rfl
  | some g => simp [eq_comm]

include hnudge hlimit

theorem tracks_after (calls : List Call) : G.Tracks calls (G.after calls) := by
  induction calls using List.reverseRecOn with
  | nil =>
    refine ⟨rfl, if_pos ⟨hnudge, hlimit⟩, fun k => rfl, ?_⟩
    intro k h
    have hzero : streak (G.digests k []) = 0 := rfl
    omega
  | append_singleton calls c ih =>
    rw [after_concat]
    have hpos : 0 < (G.after calls).limit := by
      rw [ih.limit]
      omega
    have hne : (G.after calls).nudgeLimit ≠ 0 := by
      rw [ih.nudgeLimit]
      omega
    have limits : (G.guardrail (G.after calls) c).2.limit = G.limit ∧
        (G.guardrail (G.after calls) c).2.nudgeLimit = G.nudgeLimit := by
      cases hk : c.key? G.py with
      | none =>
        have hframe := guardrail_frame (G.after calls) (k := ("", .null)) (by rw [hk]; exact nofun)
        exact ⟨hframe.limit.trans ih.limit, hframe.nudgeLimit.trans ih.nudgeLimit⟩
      | some k =>
        have hcounts := guardrail_spec hpos hne hk
        exact ⟨hcounts.limit.trans ih.limit, hcounts.nudgeLimit.trans ih.nudgeLimit⟩
    refine ⟨limits.1, limits.2, ?_, ?_⟩
    · intro k
      by_cases hk : c.key? G.py = some k
      · rw [(guardrail_spec hpos hne hk).entry, ih.count hk, digests_self hk, List.getLast?_concat, Option.map_some]
      · rw [(guardrail_frame _ hk).entry, ih.entry, digests_other hk]
    · intro k hstreak
      by_cases hk : c.key? G.py = some k
      · rw [(guardrail_spec hpos hne hk).nudged, ih.count hk, ih.limit, ih.nudgeLimit]
        by_cases hl : (streak (G.digests k (calls ++ [c])) : Int) < G.limit
        · exact .inr ⟨hstreak, hl⟩
        · -- the streak was one shorter before, and at the nudge limit already
          refine .inl (ih.nudged k ?_)
          rw [digests_self hk, streak_concat] at hl
          split at hl
          · omega
          · omega
      · rw [(guardrail_frame _ hk).nudged]
        rw [digests_other hk] at hstreak
        exact ih.nudged k hstreak

omit hnudge hlimit

variable (G) in
/-- The call at `i` is one of key `k`, and the guardrail nudges. -/
def NudgesAt (calls : List Call) (k : Key) (i : Nat) : Prop :=
  calls[i]?.bind (Call.key? G.py) = some k ∧ ∃ n, G.verdict calls i = some (.ok (.nudge n))

variable (G) in
def AbortsAt (calls : List Call) (k : Key) (i : Nat) : Prop :=
  calls[i]?.bind (Call.key? G.py) = some k ∧ ∃ n, G.verdict calls i = some (.ok (.abort n))

theorem take_succ_of_get {calls : List Call} {i : Nat} {c : Call} (h : calls[i]? = some c) :
    calls.take (i + 1) = calls.take i ++ [c] := by
  rw [List.take_add_one, h, Option.toList_some]

include hnudge hlimit

theorem abortsAt_iff (calls : List Call) (k : Key) (i : Nat) :
    G.AbortsAt calls k i ↔ calls[i]?.bind (Call.key? G.py) = some k ∧
      G.limit ≤ streak (G.digests k (calls.take (i + 1))) := by
  unfold AbortsAt verdict
  refine and_congr_right fun hk => ?_
  obtain ⟨c, hc, hk⟩ := Option.bind_eq_some_iff.mp hk
  have htracks := tracks_after hnudge hlimit (calls.take i)
  have hcounts := guardrail_spec (by rw [htracks.limit]; omega) (by rw [htracks.nudgeLimit]; omega) hk
  have haborts := hcounts.aborts
  rw [htracks.limit, htracks.count hk] at haborts
  rw [take_succ_of_get hc, ← haborts, hc]
  simp

theorem nudgesAt_iff (calls : List Call) (k : Key) (i : Nat) :
    G.NudgesAt calls k i ↔ calls[i]?.bind (Call.key? G.py) = some k ∧
      (G.nudgeLimit ≤ streak (G.digests k (calls.take (i + 1))) ∧ streak (G.digests k (calls.take (i + 1))) < G.limit) ∧
        sig k ∉ (G.after (calls.take i)).nudged := by
  unfold NudgesAt verdict
  refine and_congr_right fun hk => ?_
  obtain ⟨c, hc, hk⟩ := Option.bind_eq_some_iff.mp hk
  have htracks := tracks_after hnudge hlimit (calls.take i)
  have hcounts := guardrail_spec (by rw [htracks.limit]; omega) (by rw [htracks.nudgeLimit]; omega) hk
  have hnudges := hcounts.nudges
  rw [htracks.limit, htracks.nudgeLimit, htracks.count hk] at hnudges
  rw [take_succ_of_get hc, ← hnudges, hc]
  simp

/-- A key is marked exactly if a call before was nudged. -/
theorem nudged_iff (calls : List Call) (k : Key) (i : Nat) :
    sig k ∈ (G.after (calls.take i)).nudged ↔ ∃ j < i, G.NudgesAt calls k j := by
  induction i with
  | zero =>
    refine iff_of_false ?_ ?_
    · intro h
      cases h
    · intro hex
      rcases hex with ⟨j, hj, -⟩
      omega
  | succ i ih =>
    have hsplit : (∃ j < i + 1, G.NudgesAt calls k j) ↔ (∃ j < i, G.NudgesAt calls k j) ∨ G.NudgesAt calls k i := by
      simp only [Nat.lt_succ_iff_lt_or_eq, or_and_right, exists_or, exists_eq_left]
    rw [hsplit, ← ih]
    cases hc : calls[i]? with
    | none =>
      have hlen : calls.length ≤ i := List.getElem?_eq_none_iff.mp hc
      have hno : ¬ G.NudgesAt calls k i := by
        intro hboth
        rcases hboth with ⟨h, -⟩
        rw [hc] at h
        cases h
      rw [List.take_of_length_le (by omega), List.take_of_length_le hlen, or_iff_left hno]
    | some c =>
      rw [take_succ_of_get hc, after_concat]
      have htracks := tracks_after hnudge hlimit (calls.take i)
      by_cases hk : c.key? G.py = some k
      · have hcounts := guardrail_spec (by rw [htracks.limit]; omega) (by rw [htracks.nudgeLimit]; omega) hk
        have hbind : calls[i]?.bind (Call.key? G.py) = some k := by rw [hc, Option.bind_some, hk]
        rw [hcounts.nudged, nudgesAt_iff hnudge hlimit, htracks.limit, htracks.nudgeLimit, htracks.count hk,
          take_succ_of_get hc, and_iff_right hbind]
        by_cases hmem : sig k ∈ (G.after (calls.take i)).nudged
        · simp [hmem]
        · simp [hmem]
      · have hno : ¬ G.NudgesAt calls k i := by
          intro hboth
          rcases hboth with ⟨h, -⟩
          rw [hc, Option.bind_some] at h
          exact hk h
        rw [(guardrail_frame _ hk).nudged, or_iff_left hno]

omit hnudge hlimit

variable (G) in
/-- No two results of the attempt that differ have one digest. -/
def NoCollisions (calls : List Call) : Prop :=
  ∀ c ∈ calls, ∀ c' ∈ calls, G.digest c.output = G.digest c'.output → c.output = c'.output

variable (G) in
/-- After the call at `i` the last `limit` results of some key are equal. -/
def Stalled (calls : List Call) (i : Nat) : Prop :=
  ∃ k o, List.replicate G.limit.toNat o <:+ own G.py k (calls.take (i + 1))

theorem streak_digests {calls : List Call} (hsha : G.NoCollisions calls) (k : Key) (i : Nat) :
    streak (G.digests k (calls.take i)) = streak (own G.py k (calls.take i)) := by
  apply streak_map
  intro a ha b hb hab
  obtain ⟨c, hc, rfl⟩ := mem_own ha
  obtain ⟨c', hc', rfl⟩ := mem_own hb
  exact hsha c (List.mem_of_mem_take hc) c' (List.mem_of_mem_take hc') hab

/-- The call that first completes a streak is one of the key. -/
theorem key_of_stalled {calls : List Call} (hlimit : 0 < G.limit) {i : Nat} (hi : ∀ j < i, ¬ G.Stalled calls j) {k : Key}
    {o : String} (h : List.replicate G.limit.toNat o <:+ own G.py k (calls.take (i + 1))) :
    calls[i]?.bind (Call.key? G.py) = some k := by
  by_contra hk
  have hbefore : own G.py k (calls.take (i + 1)) = own G.py k (calls.take i) := by
    cases hc : calls[i]? with
    | none =>
      have hlen : calls.length ≤ i := List.getElem?_eq_none_iff.mp hc
      rw [List.take_of_length_le (by omega), List.take_of_length_le hlen]
    | some c =>
      rw [hc, Option.bind_some] at hk
      rw [take_succ_of_get hc, own_other hk]
  rw [hbefore] at h
  cases i with
  | zero =>
    have hlen := h.length_le
    have hnone : own G.py k (calls.take 0) = [] := rfl
    rw [hnone, List.length_replicate, List.length_nil] at hlen
    omega
  | succ i => exact hi i (by omega) ⟨k, o, h⟩

include hnudge hlimit

theorem abortsAt_iff_own {calls : List Call} (hsha : G.NoCollisions calls) (k : Key) (i : Nat) :
    G.AbortsAt calls k i ↔ calls[i]?.bind (Call.key? G.py) = some k ∧
      ∃ o, List.replicate G.limit.toNat o <:+ own G.py k (calls.take (i + 1)) := by
  rw [abortsAt_iff hnudge hlimit, streak_digests hsha, ← le_streak_iff (by omega)]
  refine and_congr_right fun _ => ?_
  omega

theorem aborts_first {calls : List Call} (hsha : G.NoCollisions calls) (i : Nat) :
    IsLeast {i | ∃ k, G.AbortsAt calls k i} i ↔ IsLeast {i | G.Stalled calls i} i := by
  have stalled_of_aborts : ∀ j, (∃ k, G.AbortsAt calls k j) → G.Stalled calls j := by
    intro j hkey
    rcases hkey with ⟨k, h⟩
    obtain ⟨-, o, ho⟩ := (abortsAt_iff_own hnudge hlimit hsha k j).mp h
    exact ⟨k, o, ho⟩
  have aborts_of_least : ∀ j, G.Stalled calls j → (∀ m < j, ¬ G.Stalled calls m) → ∃ k, G.AbortsAt calls k j := by
    intro j hkey hj
    rcases hkey with ⟨k, o, ho⟩
    exact ⟨k, (abortsAt_iff_own hnudge hlimit hsha k j).mpr ⟨key_of_stalled (by omega) hj ho, o, ho⟩⟩
  constructor
  · intro hfirst
    rcases hfirst with ⟨haborts, hleast⟩
    refine ⟨stalled_of_aborts i haborts, ?_⟩
    intro j hj
    -- below any stall there is a first one, and the guardrail aborts there
    classical
    have hex : ∃ m, G.Stalled calls m := ⟨j, hj⟩
    have hfirst := aborts_of_least (Nat.find hex) (Nat.find_spec hex) fun m hm => Nat.find_min hex hm
    exact (hleast hfirst).trans (Nat.find_min' hex hj)
  · intro hfirst
    rcases hfirst with ⟨hstalled, hleast⟩
    refine ⟨aborts_of_least i hstalled ?_, fun j hj => hleast (stalled_of_aborts j hj)⟩
    intro m hm h
    have hle := hleast h
    omega

theorem nudged_once {calls : List Call} {k : Key} {i j : Nat} (hi : G.NudgesAt calls k i) (hj : G.NudgesAt calls k j) :
    i = j := by
  have notBefore : ∀ {a b}, G.NudgesAt calls k a → G.NudgesAt calls k b → ¬ a < b := by
    intro a b ha hb hlt
    exact ((nudgesAt_iff hnudge hlimit calls k b).mp hb).2.2 ((nudged_iff hnudge hlimit calls k b).mpr ⟨a, hlt, ha⟩)
  have hij := notBefore hi hj
  have hji := notBefore hj hi
  omega

theorem nudged_before_abort {calls : List Call} {k : Key} {i : Nat} (h : G.AbortsAt calls k i) :
    ∃ j < i, G.NudgesAt calls k j := by
  rw [← nudged_iff hnudge hlimit]
  obtain ⟨hk, hstreak⟩ := (abortsAt_iff hnudge hlimit calls k i).mp h
  obtain ⟨c, hc, hk⟩ := Option.bind_eq_some_iff.mp hk
  apply (tracks_after hnudge hlimit (calls.take i)).nudged
  rw [take_succ_of_get hc, digests_self hk, streak_concat] at hstreak
  split at hstreak <;> omega

omit hnudge hlimit

/-- Over every trace of completed calls, with limits `0 < nudge_limit < limit`: the first
    abort is at the first call after which some key's last `limit` results are equal; no
    key is nudged twice, an abort comes behind exactly one nudge of its key; and a result
    that changed starts its key's count anew, whatever the other keys are at. -/
theorem stalls_abort (G : Guard) (hnudge : 0 < G.nudgeLimit) (hlimit : G.nudgeLimit < G.limit) (calls : List Call)
    (hsha : G.NoCollisions calls) :
    (∀ i, IsLeast {i | ∃ k, G.AbortsAt calls k i} i ↔ IsLeast {i | G.Stalled calls i} i) ∧
      (∀ k i j, G.NudgesAt calls k i → G.NudgesAt calls k j → i = j) ∧
      (∀ k i, G.AbortsAt calls k i → ∃! j, j < i ∧ G.NudgesAt calls k j) ∧
      ∀ i c k, calls[i]? = some c → c.key? G.py = some k →
        (∀ o, (own G.py k (calls.take i)).getLast? = some o → o ≠ c.output →
          Dict.get? (G.after (calls.take (i + 1))).state (sig k) = some (G.digest c.output, 1)) ∧
        ∀ k', k' ≠ k → Frame (G.after (calls.take i)) (G.after (calls.take (i + 1))) k' := by
  refine ⟨aborts_first hnudge hlimit hsha, fun k i j => nudged_once hnudge hlimit, ?_, ?_⟩
  · intro k i h
    obtain ⟨j, hj, hn⟩ := nudged_before_abort hnudge hlimit h
    exact ⟨j, ⟨hj, hn⟩, fun m hm => nudged_once hnudge hlimit hm.2 hn⟩
  · intro i c k hc hk
    rw [take_succ_of_get hc, after_concat]
    refine ⟨?_, ?_⟩
    · intro o ho hne
      have htracks := tracks_after hnudge hlimit (calls.take i)
      have hcounts := guardrail_spec (by rw [htracks.limit]; omega) (by rw [htracks.nudgeLimit]; omega) hk
      obtain ⟨d, hd, rfl⟩ := mem_own (List.mem_of_getLast? ho)
      have hdigest : G.digest d.output ≠ G.digest c.output := by
        intro h
        exact hne (hsha d (List.mem_of_mem_take hd) c (List.mem_of_getElem? hc) h)
      rw [hcounts.entry, htracks.count hk, digests_self hk, streak_concat, digests, List.getLast?_map, ho,
        Option.map_some, if_neg (by simpa using hdigest)]
    · intro k' hk'
      apply guardrail_frame
      rw [hk]
      exact fun h => hk' (Option.some.inj h).symm

end Attempt

end Guard

/-! ## Runs -/

/-- `json.loads` by the parser, and the two digests the runs need. -/
def small : Guard where
  py := ⟨fun s => match Json.parse s.toList with | some j => .value j | none => .decodeError,
    fun _ => "", Char.isAlphanum, Char.isDigit, String.toUpper⟩
  sha256 := fun s =>
    if s = "(no output)".toList then "efefc15c24ee8645a3f5f6958389db729c1577eb6b32aeac4caab2a86d90daa3"
    else "a4c3ed04a95a3da14a9d235c83d868bed7c0f45cf7f3faa751ee8f50598d2211"
  limit := 3
  nudgeLimit := 2

def ran (output : String) : Call := ⟨"execute_command", "\x7b\"command\": \"queue\"\x7d", output⟩

/-- The second result is another one, so the loop begins behind it. -/
def looping : List Call := ["(no output)", "done", "(no output)", "(no output)", "(no output)"].map ran

theorem looping_noCollisions : small.NoCollisions looping := by
  show ∀ c ∈ looping, ∀ c' ∈ looping, small.digest c.output = small.digest c'.output → c.output = c'.output
  decide +kernel

theorem a_loop_is_aborted : IsLeast {i | small.Stalled looping i} 4 := by
  have habort : small.verdict looping 4 = some (.ok (.abort 3)) := by decide +kernel
  have hbefore : ∀ i < 4, small.verdict looping i ∈ [some (.ok .allow), some (.ok (.nudge 2))] := by decide +kernel
  have hkey : (looping[4]?.bind (Call.key? small.py)).isSome = true := by decide +kernel
  obtain ⟨k, hk⟩ := Option.isSome_iff_exists.mp hkey
  refine ((Guard.stalls_abort small (by decide) (by decide) looping looping_noCollisions).1 4).mp ⟨⟨k, hk, 3, habort⟩, ?_⟩
  intro i hkey
  rcases hkey with ⟨k, -, n, hn⟩
  by_contra hlt
  have hmem := hbefore i (by omega)
  rw [hn] at hmem
  simp at hmem

end Errand.Runner.Stall

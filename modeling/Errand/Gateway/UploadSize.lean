import Errand.Gateway.WriteBack

/-
  Errand.Gateway.UploadSize — what the write-back monitor makes of an upload that is done
  (`_verify_completed_upload`; workspace-gateway/refresher.py).

  The length of a cached file is a function of time that the cycles sample; an upload
  publishes the length of its own moment. The monitor compares only with a length that it
  has sampled twice in a row.

  Proved:
  - `mismatch_recorded_iff`: a cycle records a mismatch exactly if the path is clean again,
    its last two samples agree, and the object has another size.
  - `no_false_alarm_iff`: a correct upload raises none exactly if the length at the upload
    is that of the last two samples where these agree. Two samples that agree do not make a
    length final (`a_pause_looks_final`).
-/

namespace Errand.Gateway

open Errand.Lib

/-! ## Samples -/

/-- When the path's length was sampled, since it was last clean. -/
def sampled (path : Path) (times : List ℚ) (c : Cycle) : List ℚ :=
  match c.sighted path with
  | none => times
  | some none => []
  | some (some e) => if e.dataSize.isSome then times ++ [c.now] else times

/-- What was sampled then. -/
def samples (path : Path) (sizes : List Nat) (c : Cycle) : List Nat :=
  match c.sighted path with
  | none => sizes
  | some none => []
  | some (some e) => sizes ++ e.dataSize.toList

/-- The track knows of the samples the last, and whether it repeats the one before. -/
structure Knows (t : Track) (sizes : List Nat) : Prop where
  last : t.lastSize = sizes.getLast?
  stable : t.stable = some true ↔ ∃ before k, sizes = before ++ [k, k]

theorem Knows.unseen : Knows .unseen [] := by
  refine ⟨rfl, nofun, ?_⟩
  intro hpub
  rcases hpub with ⟨before, k, h⟩
  have := congrArg List.length h
  simp at this

theorem Knows.follow {p : Path} {t : Track} {sizes : List Nat} (h : Knows t sizes) (c : Cycle) :
    Knows (follow p t c) (samples p sizes c) := by
  unfold Errand.Gateway.follow samples
  cases c.sighted p with
  | none => exact h
  | some entry =>
    cases entry with
    | none => exact Knows.unseen
    | some e =>
      unfold Track.observe
      cases he : e.dataSize with
      | none => exact ⟨by simpa [he] using h.last, by simpa [he] using h.stable⟩
      | some size =>
        refine ⟨by simp [he], ?_⟩
        simp only [he, Option.toList_some, Option.some.injEq, decide_eq_true_eq]
        rw [h.last]
        constructor
        · intro hlast
          obtain ⟨before, hb⟩ := List.getLast?_eq_some_iff.mp hlast
          exact ⟨before, size, by rw [hb]; simp⟩
        · intro hpub
          rcases hpub with ⟨before, k, hb⟩
          rw [show before ++ [k, k] = (before ++ [k]) ++ [k] by simp] at hb
          obtain ⟨hsizes, hk⟩ := List.append_inj' hb rfl
          rw [hsizes, List.getLast?_concat, List.head_eq_of_cons_eq hk]

theorem knows_run (p : Path) (cs : List Cycle) : ∀ {t : Track} {sizes : List Nat}, Knows t sizes →
    Knows (cs.foldl (follow p) t) (cs.foldl (samples p) sizes) := by
  induction cs with
  | nil => intro t sizes h; exact h
  | cons c cs ih => intro t sizes h; exact ih (h.follow c)

/-- Where the samples are of a length that changes with time, they are its values at the
    times they were taken. -/
theorem samples_eq {p : Path} {length : ℚ → Nat} (cs : List Cycle)
    (h : ∀ d ∈ cs, ∀ e, d.sighted p = some (some e) → ∀ size, e.dataSize = some size → size = length d.now) :
    ∀ times : List ℚ, cs.foldl (samples p) (times.map length) = (cs.foldl (sampled p) times).map length := by
  induction cs with
  | nil => intro times; rfl
  | cons c cs ih =>
    intro times
    have hstep : samples p (times.map length) c = (sampled p times c).map length := by
      unfold samples sampled
      cases hs : c.sighted p with
      | none => rfl
      | some entry =>
        cases entry with
        | none => rfl
        | some e =>
          cases he : e.dataSize with
          | none => simp [he]
          | some size => simp [he, h c (List.mem_cons_self ..) e hs size he]
    rw [List.foldl_cons, List.foldl_cons, hstep]
    exact ih (fun d hd => h d (List.mem_cons_of_mem _ hd)) _

/-! ## What a cycle records -/

theorem checkUpload_mismatch {cfg : MonitorConfig} {expected : Option Nat} {stable : Bool}
    {published : Option (Option Int)} {found : Mismatch} :
    checkUpload cfg expected stable published = .mismatch found ↔
      cfg.verifyUploadSize = true ∧ stable = true ∧ expected = some found.expectedSize ∧
        published = some found.publishedSize ∧ found.publishedSize ≠ some (found.expectedSize : Int) := by
  unfold checkUpload
  cases cfg.verifyUploadSize with
  | false => simp
  | true =>
    cases expected with
    | none => simp
    | some expected =>
      cases stable with
      | false => simp
      | true =>
        cases published with
        | none => simp
        | some actual =>
          obtain ⟨size, actual'⟩ := found
          by_cases h : actual = some (expected : Int)
          · simp only [Bool.not_true, Bool.false_eq_true, if_false, h, if_true, true_and, reduceCtorEq, false_iff]
            intro hbad
            rcases hbad with ⟨he, hp, hne⟩
            rw [← Option.some.inj hp, ← Option.some.inj he] at hne
            exact hne rfl
          · simp only [Bool.not_true, Bool.false_eq_true, if_false, h, true_and, UploadCheck.mismatch.injEq,
              Mismatch.mk.injEq, Option.some.injEq]
            constructor
            · intro hentry
              rcases hentry with ⟨rfl, rfl⟩
              exact ⟨rfl, rfl, h⟩
            · intro hentry
              rcases hentry with ⟨rfl, rfl, -⟩
              exact ⟨rfl, rfl⟩

/-- The check of a path's upload, from what is held of the path, finds a mismatch. -/
def Mismatches (cfg : MonitorConfig) (c : Cycle) (t : Track) (path : Path) : Prop :=
  ∃ found, checkUpload cfg t.lastSize (t.stable.getD false) (c.published path) = .mismatch found

theorem recorded_settle (cfg : MonitorConfig) (c : Cycle) (current : List (Path × DirtyEntry)) (m : Monitor)
    (q p : Path) : p ∈ (m.settle cfg c current q).recorded ↔
      p ∈ m.recorded ∨ q = p ∧ Dict.get? current p = none ∧ Mismatches cfg c (m.track p) p := by
  unfold Monitor.settle
  split
  · rename_i h
    refine ⟨Or.inl, fun hor => hor.resolve_right ?_⟩
    intro hentry
    rcases hentry with ⟨rfl, hnone, -⟩
    rw [hnone] at h
    cases h
  · rename_i h
    have hnone := Option.not_isSome_iff_eq_none.mp h
    have hforget : ((m.verifyCompletedUpload cfg c q).forget q).recorded =
        (m.verifyCompletedUpload cfg c q).recorded := rfl
    rw [hforget]
    unfold Monitor.verifyCompletedUpload Mismatches
    by_cases hq : q = p
    · subst hq
      simp only [hnone, true_and, Monitor.track]
      cases checkUpload cfg (Dict.get? m.lastDataSize q) ((Dict.get? m.sizeStable q).getD false) (c.published q) with
      | unverified => simp
      | clean => simp
      | mismatch found => simp
    · cases checkUpload cfg (Dict.get? m.lastDataSize q) ((Dict.get? m.sizeStable q).getD false) (c.published q) with
      | unverified => simp [hq]
      | clean => simp [hq]
      | mismatch found => simp [hq, Ne.symm hq]

theorem unseen_no_mismatch (cfg : MonitorConfig) (c : Cycle) (p : Path) : ¬Mismatches cfg c .unseen p := by
  intro hfound
  rcases hfound with ⟨found, h⟩
  have := (checkUpload_mismatch.mp h).2.2.1
  cases this

theorem recorded_settles (cfg : MonitorConfig) (c : Cycle) (current : List (Path × DirtyEntry)) (p : Path)
    (ks : List Path) : ∀ m : Monitor, (p ∈ (ks.foldl (Monitor.settle cfg c current) m).recorded ↔
      p ∈ m.recorded ∨ p ∈ ks ∧ Dict.get? current p = none ∧ Mismatches cfg c (m.track p) p) := by
  induction ks with
  | nil => intro m; simp
  | cons q ks ih =>
    intro m
    rw [List.foldl_cons, ih, recorded_settle, track_settle, or_assoc]
    refine or_congr_right ?_
    by_cases hc : Dict.get? current p = none
    · by_cases hq : q = p
      · -- once checked it is forgotten, and is not checked again
        simp [hq, hc, unseen_no_mismatch]
      · simp [hq, hc, Ne.symm hq]
    · simp [hc]

theorem recorded_visits (cfg : MonitorConfig) (c : Cycle) (es : List DirtyEntry) : ∀ v : Visit,
    (es.foldl (visit cfg c) v).monitor.recorded = v.monitor.recorded := by
  induction es with
  | nil => intro v; rfl
  | cons e es ih =>
    intro v
    have hobserve : (v.monitor.observe c e).recorded = v.monitor.recorded := by
      unfold Monitor.observe
      cases e.dataSize with
      | none => simp only; split <;> rfl
      | some size => simp only; split <;> rfl
    exact (ih _).trans hobserve

theorem collect_recorded {cfg : MonitorConfig} {m : Monitor} {c : Cycle} {p : Path} (ht : Tidy (m.track p)) :
    p ∈ (collectHealthStats cfg m c).1.recorded ↔ c.sighted p = some none ∧ Mismatches cfg c (m.track p) p := by
  unfold collectHealthStats Cycle.sighted
  cases c.scan with
  | none => simp
  | some entries =>
    simp only [evaluate, recorded_visits, recorded_settles, List.not_mem_nil, false_or, Option.map_some,
      Option.some.injEq]
    constructor
    · intro hcheck
      rcases hcheck with ⟨-, hc, h⟩
      exact ⟨hc, h⟩
    · intro hcheck
      rcases hcheck with ⟨hc, h⟩
      refine ⟨?_, hc, h⟩
      rw [Dict.mem_keys_iff, Option.isSome_iff_ne_none]
      intro hnone
      have hunseen := ht hnone
      exact unseen_no_mismatch cfg c p (hunseen ▸ h)

theorem mismatch_recorded_iff {cfg : MonitorConfig} {cs : List Cycle} {c : Cycle} {s : WatchState} {path : Path}
    (h : (watch cfg).exec startState (cs ++ [c]) = some s) :
    path ∈ s.monitor.recorded ↔ cfg.verifyUploadSize = true ∧ c.sighted path = some none ∧
      ∃ (before : List Nat) (k : Nat) (size : Option Int), cs.foldl (samples path) [] = before ++ [k, k] ∧
        c.published path = some size ∧ size ≠ some (k : Int) := by
  obtain ⟨u, hu, hstep⟩ := Machine.exec_concat _ h
  obtain ⟨htrack, htidy⟩ := watch_track (p := path) (fun _ => rfl) hu
  obtain ⟨hmonitor, -⟩ := watch_step hstep
  have hknows : Knows (u.monitor.track path) (cs.foldl (samples path) []) := htrack ▸ knows_run path cs Knows.unseen
  rw [hmonitor, collect_recorded htidy, Mismatches]
  constructor
  · intro hfinal
    rcases hfinal with ⟨hclean, found, hcheck⟩
    obtain ⟨hverify, hstable, hexpected, hpublished, hne⟩ := checkUpload_mismatch.mp hcheck
    have hsome : (u.monitor.track path).stable = some true := by
      cases hs : (u.monitor.track path).stable with
      | none => rw [hs] at hstable; cases hstable
      | some b => rw [hs] at hstable; exact congrArg some hstable
    obtain ⟨before, k, hk⟩ := hknows.stable.mp hsome
    have hlast : (cs.foldl (samples path) []).getLast? = some k := by
      rw [hk, show before ++ [k, k] = (before ++ [k]) ++ [k] by simp, List.getLast?_concat]
    rw [hknows.last, hlast] at hexpected
    cases hexpected
    exact ⟨hverify, hclean, before, found.expectedSize, found.publishedSize, hk, hpublished, hne⟩
  · intro hmissed
    rcases hmissed with ⟨hverify, hclean, before, k, size, hk, hpublished, hne⟩
    have hlast : (cs.foldl (samples path) []).getLast? = some k := by
      rw [hk, show before ++ [k, k] = (before ++ [k]) ++ [k] by simp, List.getLast?_concat]
    refine ⟨hclean, ⟨k, size⟩, checkUpload_mismatch.mpr ⟨hverify, ?_, ?_, hpublished, hne⟩⟩
    · rw [hknows.stable.mpr ⟨before, k, hk⟩]
      rfl
    · rw [hknows.last, hlast]

/-! ## False alarms -/

/-- Each length that the cycles saw is the file's of that time. -/
def SamplesOf (length : ℚ → Nat) (path : Path) (cs : List Cycle) : Prop :=
  ∀ d ∈ cs, ∀ e, d.sighted path = some (some e) → ∀ size, e.dataSize = some size → size = length d.now

/-- What is published is the file as it was at the upload. -/
def UploadedAt (length : ℚ → Nat) (upload : ℚ) (path : Path) (c : Cycle) : Prop :=
  ∀ size, c.published path = some size → size = some (length upload : Int)

/-- Of a correct upload no mismatch is recorded exactly if it is not checked (or the object
    not found), or where the last two samples before it agree it has their length too. -/
theorem no_false_alarm_iff {cfg : MonitorConfig} {cs : List Cycle} {c : Cycle} {s : WatchState} {path : Path}
    {length : ℚ → Nat} {upload : ℚ} (h : (watch cfg).exec startState (cs ++ [c]) = some s)
    (hsamples : SamplesOf length path cs) (hupload : UploadedAt length upload path c) :
    path ∉ s.monitor.recorded ↔
      (cfg.verifyUploadSize = true → c.sighted path = some none → c.published path ≠ none →
        ∀ before t₁ t₂, cs.foldl (sampled path) [] = before ++ [t₁, t₂] → length t₁ = length t₂ →
          length upload = length t₂) := by
  rw [mismatch_recorded_iff h]
  have hsizes : cs.foldl (samples path) [] = (cs.foldl (sampled path) []).map length := samples_eq cs hsamples []
  constructor
  · intro hnot hverify hclean hpublished before t₁ t₂ htimes hagree
    obtain ⟨size, hsize⟩ := Option.ne_none_iff_exists'.mp hpublished
    by_contra hne
    refine hnot ⟨hverify, hclean, before.map length, length t₂, size, ?_, hsize, ?_⟩
    · rw [hsizes, htimes, List.map_append, List.map_cons, List.map_cons, List.map_nil, hagree]
    · rw [hupload size hsize]
      intro he
      exact hne (by exact_mod_cast Option.some.inj he)
  · intro hfinal hmissed
    rcases hmissed with ⟨hverify, hclean, before, k, size, hk, hsize, hne⟩
    rw [hsizes] at hk
    obtain ⟨times, rest, htimes, -, hrest⟩ := List.map_eq_append_iff.mp hk
    obtain ⟨t₁, rest', rfl, hk₁, hrest'⟩ := List.map_eq_cons_iff.mp hrest
    obtain ⟨t₂, rest'', rfl, hk₂, hnil⟩ := List.map_eq_cons_iff.mp hrest'
    rw [List.map_eq_nil_iff] at hnil
    subst hnil
    have hlength := hfinal hverify hclean (by rw [hsize]; simp) times t₁ t₂ htimes (hk₁.trans hk₂.symm)
    rw [hupload size hsize, hlength, hk₂] at hne
    exact hne rfl

/-- The file `gdrive/a`, dirty, with the length of its time. -/
def writing (length : ℚ → Nat) (now : ℚ) : Cycle where
  now := now
  stats := ⟨some 0, some 0, some 0⟩
  scan := some [⟨["gdrive", "a"], .obj [("Dirty", .bool true), ("Size", .int 1)], true, some (length now)⟩]
  published := fun _ => none

/-- The file is clean, and its object has a size. -/
def uploaded (size : Nat) (now : ℚ) : Cycle where
  now := now
  stats := ⟨some 0, some 0, some 0⟩
  scan := some []
  published := fun _ => some (some size)

theorem writing_samples (length : ℚ → Nat) (t₁ t₂ : ℚ) :
    SamplesOf length ["gdrive", "a"] [writing length t₁, writing length t₂] := by
  intro d hd e he size hsize
  have hwriting : ∀ t, d = writing length t → size = length d.now := by
    intro t heq
    subst heq
    have hentry : e = ⟨["gdrive", "a"], .obj [("Dirty", .bool true), ("Size", .int 1)], true, some (length t)⟩ :=
      (Option.some.inj (Option.some.inj he)).symm
    rw [hentry] at hsize
    exact (Option.some.inj hsize).symm
  rcases List.mem_cons.mp hd with hd | hd
  · exact hwriting t₁ hd
  · exact hwriting t₂ (List.mem_singleton.mp hd)

theorem a_settled_file_raises_none : ∃ s, (watch ⟨30, 900, true⟩).exec startState
    ([writing (fun _ => 100) 0, writing (fun _ => 100) 30] ++ [uploaded 100 60]) = some s ∧
      ["gdrive", "a"] ∉ s.monitor.recorded := by
  have hrun : ((watch ⟨30, 900, true⟩).exec startState
      ([writing (fun _ => 100) 0, writing (fun _ => 100) 30] ++ [uploaded 100 60])).isSome = true := by decide
  obtain ⟨s, hs⟩ := Option.isSome_iff_exists.mp hrun
  have hup : UploadedAt (fun _ => 100) 45 ["gdrive", "a"] (uploaded 100 60) := by
    intro size h
    exact (Option.some.inj h).symm
  refine ⟨s, hs, (no_false_alarm_iff hs (writing_samples _ 0 30) hup).mpr ?_⟩
  intro _ _ _ _ _ _ _ _
  rfl

/-- The file stands at 100 bytes for two cycles, grows to 200, and is uploaded whole: a
    mismatch is recorded. -/
theorem a_pause_looks_final :
    ¬∀ (cfg : MonitorConfig) (cs : List Cycle) (c : Cycle) (s : WatchState) (path : Path) (length : ℚ → Nat) (upload : ℚ),
      (watch cfg).exec startState (cs ++ [c]) = some s → SamplesOf length path cs → UploadedAt length upload path c →
        (∀ d ∈ cs, d.now ≤ upload) → upload ≤ c.now → c.sighted path = some none → path ∉ s.monitor.recorded := by
  intro h
  let length : ℚ → Nat := fun t => if t < 40 then 100 else 200
  have hrun : ((watch ⟨30, 900, true⟩).exec startState
      ([writing length 0, writing length 30] ++ [uploaded 200 60])).any
        (fun s => decide (["gdrive", "a"] ∈ s.monitor.recorded)) = true := by decide
  rw [Option.any_eq_true] at hrun
  obtain ⟨s, hs, hrecorded⟩ := hrun
  refine h _ _ _ s _ length 45 hs (writing_samples length 0 30) ?_ ?_ (by norm_num [uploaded]) rfl
    (by simpa using hrecorded)
  · intro size hsize
    have hlength : length 45 = 200 := by norm_num [length]
    rw [hlength]
    exact (Option.some.inj hsize).symm
  · intro d hd
    rcases List.mem_cons.mp hd with rfl | hd
    · norm_num [writing]
    · rw [List.mem_singleton.mp hd]
      norm_num [writing]

end Errand.Gateway

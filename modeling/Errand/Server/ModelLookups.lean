import Errand.Lib.Dict
import Errand.Lib.Like
import Errand.Lib.Lines
import Errand.Lib.PyStr
import Mathlib.Data.Char
import Mathlib.Data.List.Dedup
import Mathlib.Data.List.Lex
import Mathlib.Data.List.MinMax
import Mathlib.Data.List.Sort

/-
  Errand.Server.ModelLookups — what the registry knows of a model (errand/model_metadata.py):
  `lookup_model_metadata` asks the database for the exact name and then for LIKE patterns,
  `batch_lookup_model_metadata` reads the whole cache and compares prefixes.

  Proved:
  - `majorityMode_iff`: the mode that is kept is the commonest, the first of those by its text.
  - `read_eq_iff`: two answers are the same exactly if what they are read from is alike.
  - `batch_agrees_iff`: the batch agrees exactly where the entries the patterns decide by and
    those the prefixes decide by are alike; `batch_plain`: it does where a name has no sign of LIKE.
  - `an_underscore_in_a_name`: a cache and a name for which they are not.
-/

namespace Errand.Server.ModelLookups

open Errand.Lib Errand.Lib.Lines Errand.Lib.PyStr

abbrev Text := List Char

/-- A row of `model_metadata_cache`. -/
structure Entry where
  normalizedName : Text
  supportsReasoning : Bool
  maxOutputTokens : Option Int
  mode : Option Text
  deriving DecidableEq, Repr

/-- The cache as a session reads it: a query's rows come in any order. -/
structure Session where
  entries : List Entry
  distinct : (entries.map (·.normalizedName)).Nodup
  select : (Entry → Bool) → List Entry
  select_perm : ∀ p, (select p).Perm (entries.filter p)

structure ModelMetadata where
  supportsReasoning : Option Bool
  maxOutputTokens : Option Int
  mode : Option Text
  deriving DecidableEq, Repr

def unknown : ModelMetadata := ⟨none, none, none⟩

/-! ## Names -/

/-- `normalize_model_name`; `lower` is `str.lower`. -/
def normalizeModelName (lower : Text → Text) (name : Text) : Text :=
  lower (((split '/' name).2.takeWhile (· ≠ ':')).takeWhile (· ≠ '@'))

/-- A hyphen between a letter and a digit behind it, unless one is before the letter; `prev` is
    the character before. -/
def hyphenated : Option Char → Text → Text
  | prev, c :: d :: s =>
    if isLowerAscii c && isDigit d && prev ≠ some '-' then c :: '-' :: d :: hyphenated (some d) s
    else c :: hyphenated (some c) (d :: s)
  | _, s => s

/-- `_alt_normalize`. -/
def altNormalize (name : Text) : Option Text :=
  let alt := hyphenated none name
  if alt ≠ name then some alt else none

example : altNormalize "llama3.2".toList = some "llama-3.2".toList ∧ altNormalize "deepseek-r1".toList = none := by
  decide

/-! ## What several entries say -/

/-- The modes that are not empty. -/
def present (modes : List (Option Text)) : List Text := (modes.filterMap id).filter fun m => !m.isEmpty

/-- `sorted(set(texts))`. -/
def sortedSet (texts : List Text) : List Text := texts.dedup.insertionSort (· ≤ ·)

/-- `_majority_mode`. -/
def majorityMode (modes : List (Option Text)) : Option Text := (sortedSet (present modes)).argmax (present modes).count

def ofEntry (e : Entry) : ModelMetadata := ⟨some e.supportsReasoning, e.maxOutputTokens, e.mode⟩

def ofMatches (found : List Entry) : ModelMetadata :=
  ⟨some (found.any (·.supportsReasoning)), (found.filterMap (·.maxOutputTokens)).min?, majorityMode (found.map (·.mode))⟩

/-! ## The two look-ups -/

/-- `ModelMetadataCache.normalized_name.like(f"{normalized}-%") | ….like(f"{normalized}.%")`. -/
def liked (normalized : Text) (e : Entry) : Bool :=
  Like.like (normalized ++ ['-', '%']) e.normalizedName || Like.like (normalized ++ ['.', '%']) e.normalizedName

/-- `name.startswith(f"{normalized}-") or name.startswith(f"{normalized}.")`. -/
def prefixed (normalized : Text) (e : Entry) : Bool :=
  (normalized ++ ['-']).isPrefixOf e.normalizedName || (normalized ++ ['.']).isPrefixOf e.normalizedName

/-- `_lookup_with_name`. -/
def lookupWithName (s : Session) (normalized : Text) : Option ModelMetadata :=
  match (s.select fun e => e.normalizedName = normalized).head? with
  | some entry => some (ofEntry entry)
  | none =>
    let prefixMatches := s.select (liked normalized)
    if prefixMatches = [] then none else some (ofMatches prefixMatches)

/-- `lookup_model_metadata`. -/
def lookupModelMetadata (lower : Text → Text) (s : Session) (name : Text) : ModelMetadata :=
  let normalized := normalizeModelName lower name
  ((lookupWithName s normalized).or ((altNormalize normalized).bind (lookupWithName s))).getD unknown

/-- `by_name` of `batch_lookup_model_metadata`. -/
def byName (s : Session) : List (Text × Entry) :=
  Dict.ofItems ((s.select fun _ => true).map fun e => (e.normalizedName, e))

/-- `_match`. -/
def matchName (byName : List (Text × Entry)) (normalized : Text) : Option ModelMetadata :=
  match Dict.get? byName normalized with
  | some entry => some (ofEntry entry)
  | none =>
    let prefixMatches := (byName.map Prod.snd).filter (prefixed normalized)
    if prefixMatches = [] then none else some (ofMatches prefixMatches)

def batchOne (lower : Text → Text) (s : Session) (name : Text) : ModelMetadata :=
  let normalized := normalizeModelName lower name
  ((matchName (byName s) normalized).or ((altNormalize normalized).bind (matchName (byName s)))).getD unknown

/-- `batch_lookup_model_metadata`. -/
def batchLookupModelMetadata (lower : Text → Text) (s : Session) (names : List Text) : List (Text × ModelMetadata) :=
  names.foldl (fun results name => Dict.set results name (batchOne lower s name)) []

/-! ## What an answer says -/

/-- What an answer is read from. -/
inductive Found where
  | nothing
  | entry (e : Entry)
  | several (found : List Entry)

def Found.read : Found → Option ModelMetadata
  | .nothing => none
  | .entry e => some (ofEntry e)
  | .several found => some (ofMatches found)

/-- The token limit is the least that is known. -/
def Least (found : List Entry) (t : Int) : Prop :=
  (∃ e ∈ found, e.maxOutputTokens = some t) ∧ ∀ e ∈ found, ∀ u, e.maxOutputTokens = some u → t ≤ u

/-- None is more common among the modes that are not empty, and none as common comes before it. -/
def Commonest (modes : List (Option Text)) (m : Text) : Prop :=
  m ≠ [] ∧ some m ∈ modes ∧ ∀ x, x ≠ [] → some x ∈ modes →
    modes.count (some x) < modes.count (some m) ∨ modes.count (some x) = modes.count (some m) ∧ m ≤ x

def Found.Reasons : Found → Prop
  | .nothing => False
  | .entry e => e.supportsReasoning = true
  | .several found => ∃ e ∈ found, e.supportsReasoning = true

def Found.Limited : Found → Int → Prop
  | .nothing, _ => False
  | .entry e, t => e.maxOutputTokens = some t
  | .several found, t => Least found t

def Found.OfMode : Found → Text → Prop
  | .nothing, _ => False
  | .entry e, m => e.mode = some m
  | .several found, m => Commonest (found.map (·.mode)) m

/-- Both are nothing, or both say the same of reasoning, of the token limit and of the mode. -/
structure Alike (f g : Found) : Prop where
  nothing : f = .nothing ↔ g = .nothing
  reasons : f.Reasons ↔ g.Reasons
  limited : ∀ t, f.Limited t ↔ g.Limited t
  ofMode : ∀ m, f.OfMode m ↔ g.OfMode m

theorem least_iff {found : List Entry} {t : Int} : (found.filterMap (·.maxOutputTokens)).min? = some t ↔ Least found t := by
  rw [List.min?_eq_some_iff, Least]
  simp only [List.mem_filterMap]
  constructor
  · rintro ⟨hmem, hle⟩
    exact ⟨hmem, fun e he u hu => hle u ⟨e, he, hu⟩⟩
  · rintro ⟨hmem, hle⟩
    refine ⟨hmem, ?_⟩
    rintro u ⟨e, he, hu⟩
    exact hle e he u hu

theorem mem_present {modes : List (Option Text)} {m : Text} : m ∈ present modes ↔ m ≠ [] ∧ some m ∈ modes := by
  simp [present, and_comm]

theorem count_present {modes : List (Option Text)} {m : Text} (h : m ≠ []) :
    (present modes).count m = modes.count (some m) := by
  induction modes with
  | nil => rfl
  | cons x modes ih =>
    cases x with
    | none =>
      rw [List.count_cons_of_ne (by simp), ← ih]
      rfl
    | some x =>
      by_cases hx : x = []
      · subst hx
        rw [List.count_cons_of_ne (by simpa using Ne.symm h), ← ih]
        rfl
      · have hcons : present (some x :: modes) = x :: present modes := by simp [present, hx]
        rw [hcons, List.count_cons, List.count_cons, ih]
        simp

theorem mem_sortedSet {texts : List Text} {m : Text} : m ∈ sortedSet texts ↔ m ∈ texts := by
  rw [sortedSet, List.mem_insertionSort, List.mem_dedup]

/-- What stands first in an order is not behind. -/
theorem le_of_idxOf_le {α : Type} [Preorder α] [DecidableEq α] {l : List α} (h : l.Pairwise (· ≤ ·)) {a b : α} (ha : a ∈ l) (hb : b ∈ l)
    (hle : l.idxOf a ≤ l.idxOf b) : a ≤ b := by
  rcases Nat.lt_or_eq_of_le hle with hlt | heq
  · have hrel := List.pairwise_iff_getElem.mp h _ _ (List.idxOf_lt_length_of_mem ha) (List.idxOf_lt_length_of_mem hb) hlt
    rwa [List.getElem_idxOf, List.getElem_idxOf] at hrel
  · exact le_of_eq (List.idxOf_inj ha |>.mp heq)

theorem commonest_majority {modes : List (Option Text)} {m : Text} (h : majorityMode modes = some m) : Commonest modes m := by
  obtain ⟨hmem, hmax, hfirst⟩ := List.argmax_eq_some_iff.mp h
  have hsorted : (sortedSet (present modes)).Pairwise (· ≤ ·) := List.pairwise_insertionSort _ _
  obtain ⟨hne, hm⟩ := mem_present.mp (mem_sortedSet.mp hmem)
  refine ⟨hne, hm, fun x hx hxm => ?_⟩
  have hthere : x ∈ sortedSet (present modes) := mem_sortedSet.mpr (mem_present.mpr ⟨hx, hxm⟩)
  have hle := hmax x hthere
  rw [count_present hx, count_present hne] at hle
  rcases Nat.lt_or_eq_of_le hle with hlt | heq
  · exact .inl hlt
  · refine .inr ⟨heq, le_of_idxOf_le hsorted hmem hthere (hfirst x hthere ?_)⟩
    rw [count_present hx, count_present hne, heq]

theorem Commonest.unique {modes : List (Option Text)} {m n : Text} (hm : Commonest modes m) (hn : Commonest modes n) :
    m = n := by
  rcases hm.2.2 n hn.1 hn.2.1 with hlt | ⟨heq, hmn⟩
  · rcases hn.2.2 m hm.1 hm.2.1 with hgt | ⟨heq, -⟩
    · omega
    · omega
  · rcases hn.2.2 m hm.1 hm.2.1 with hgt | ⟨-, hnm⟩
    · omega
    · exact le_antisymm hmn hnm

theorem majorityMode_iff {modes : List (Option Text)} {m : Text} : majorityMode modes = some m ↔ Commonest modes m := by
  refine ⟨commonest_majority, fun h => ?_⟩
  cases hmode : majorityMode modes with
  | none =>
    have hnone := List.argmax_eq_none.mp hmode
    have hmem := mem_sortedSet.mpr (mem_present.mpr ⟨h.1, h.2.1⟩)
    rw [hnone] at hmem
    cases hmem
  | some n => rw [(commonest_majority hmode).unique h]

/-- What is read, part by part. -/
theorem read_some {f : Found} {r : ModelMetadata} (h : f.read = some r) :
    f ≠ .nothing ∧ (∃ b, r.supportsReasoning = some b ∧ (b = true ↔ f.Reasons)) ∧
      (∀ t, r.maxOutputTokens = some t ↔ f.Limited t) ∧ ∀ m, r.mode = some m ↔ f.OfMode m := by
  cases f with
  | nothing => cases h
  | entry e =>
    cases h
    exact ⟨nofun, ⟨_, rfl, Iff.rfl⟩, fun _ => Iff.rfl, fun _ => Iff.rfl⟩
  | several found =>
    cases h
    exact ⟨nofun, ⟨_, rfl, by simp [Found.Reasons]⟩, fun _ => least_iff, fun _ => majorityMode_iff⟩

theorem read_none {f : Found} : f.read = none ↔ f = .nothing := by
  cases f with
  | nothing => exact ⟨fun _ => rfl, fun _ => rfl⟩
  | entry e => exact ⟨nofun, nofun⟩
  | several found => exact ⟨nofun, nofun⟩

theorem alike_of_read {f g : Found} (h : f.read = g.read) : Alike f g := by
  cases hr : f.read with
  | none =>
    rw [read_none.mp hr, read_none.mp (h.symm.trans hr)]
    exact ⟨Iff.rfl, Iff.rfl, fun _ => Iff.rfl, fun _ => Iff.rfl⟩
  | some r =>
    obtain ⟨hf, ⟨b, hb, hfb⟩, hflimit, hfmode⟩ := read_some hr
    obtain ⟨hg, ⟨c, hc, hgc⟩, hglimit, hgmode⟩ := read_some (h.symm.trans hr)
    rw [hb] at hc
    cases hc
    exact ⟨iff_of_false hf hg, hfb.symm.trans hgc, fun t => (hflimit t).symm.trans (hglimit t),
      fun m => (hfmode m).symm.trans (hgmode m)⟩

theorem read_of_alike {f g : Found} (h : Alike f g) : f.read = g.read := by
  cases hr : f.read with
  | none => exact (read_none.mpr (h.nothing.mp (read_none.mp hr))).symm
  | some r =>
    obtain ⟨hf, ⟨b, hb, hfb⟩, hflimit, hfmode⟩ := read_some hr
    cases hq : g.read with
    | none => exact absurd (h.nothing.mpr (read_none.mp hq)) hf
    | some q =>
      obtain ⟨hg, ⟨c, hc, hgc⟩, hglimit, hgmode⟩ := read_some hq
      have hreason : r.supportsReasoning = q.supportsReasoning := by
        rw [hb, hc, Bool.eq_iff_iff.mpr (hfb.trans (h.reasons.trans hgc.symm))]
      have hlimit : r.maxOutputTokens = q.maxOutputTokens :=
        Option.ext fun t => (hflimit t).trans ((h.limited t).trans (hglimit t).symm)
      have hmode : r.mode = q.mode := Option.ext fun m => (hfmode m).trans ((h.ofMode m).trans (hgmode m).symm)
      cases r
      cases q
      cases hreason
      cases hlimit
      cases hmode
      rfl

theorem read_eq_iff {f g : Found} : f.read = g.read ↔ Alike f g := ⟨alike_of_read, read_of_alike⟩

/-- The order in which rows come does not matter. -/
theorem ofMatches_perm {l k : List Entry} (h : l.Perm k) : ofMatches l = ofMatches k := by
  have hread : (Found.several l).read = (Found.several k).read := by
    refine read_of_alike ⟨iff_of_false nofun nofun, ?_, fun t => ?_, fun m => ?_⟩
    · simp only [Found.Reasons, h.mem_iff]
    · simp only [Found.Limited, Least, h.mem_iff]
    · simp only [Found.OfMode, Commonest, (h.map _).mem_iff, (h.map _).count_eq]
  exact Option.some.inj hread

/-! ## What the look-ups read -/

/-- The entry of the name. -/
def named (s : Session) (normalized : Text) : Option Entry :=
  (s.entries.filter fun e => e.normalizedName = normalized).head?

/-- The entry of the name, or else those that match it. -/
def pass (s : Session) (matching : Text → Entry → Bool) (normalized : Text) : Found :=
  match named s normalized with
  | some e => .entry e
  | none =>
    let found := s.entries.filter (matching normalized)
    if found = [] then .nothing else .several found

/-- What is found under the name, or else under its alternate spelling. -/
def found (s : Session) (matching : Text → Entry → Bool) (normalized : Text) : Found :=
  match pass s matching normalized, altNormalize normalized with
  | .nothing, some alt => pass s matching alt
  | first, _ => first

theorem eq_of_name (s : Session) {e f : Entry} (he : e ∈ s.entries) (hf : f ∈ s.entries)
    (h : e.normalizedName = f.normalizedName) : e = f := List.inj_on_of_nodup_map s.distinct he hf h

theorem named_iff {s : Session} {normalized : Text} {e : Entry} :
    named s normalized = some e ↔ e ∈ s.entries ∧ e.normalizedName = normalized := by
  have hmem : ∀ f, f ∈ s.entries.filter (fun e => e.normalizedName = normalized) ↔
      f ∈ s.entries ∧ f.normalizedName = normalized := fun f => by simp
  unfold named
  constructor
  · intro h
    exact (hmem e).mp (List.mem_of_mem_head? h)
  · intro h
    cases hfilter : s.entries.filter fun e => e.normalizedName = normalized with
    | nil =>
      have hthere := (hmem e).mpr h
      rw [hfilter] at hthere
      cases hthere
    | cons f rest =>
      have hf := (hmem f).mp (by rw [hfilter]; exact List.mem_cons_self ..)
      rw [eq_of_name s hf.1 h.1 (hf.2.trans h.2.symm)]
      rfl

theorem select_head (s : Session) (normalized : Text) :
    (s.select fun e => e.normalizedName = normalized).head? = named s normalized := by
  have hperm := s.select_perm fun e => e.normalizedName = normalized
  cases hnamed : named s normalized with
  | none =>
    have hnil := List.head?_eq_none_iff.mp hnamed
    rw [hnil] at hperm
    rw [hperm.eq_nil]
    rfl
  | some e =>
    obtain ⟨he, hname⟩ := named_iff.mp hnamed
    cases hrows : s.select fun e => e.normalizedName = normalized with
    | nil =>
      rw [hrows] at hperm
      have hthere : e ∈ s.entries.filter fun e => e.normalizedName = normalized := List.mem_of_mem_head? hnamed
      rw [hperm.symm.eq_nil] at hthere
      cases hthere
    | cons f rest =>
      have hf := hperm.mem_iff.mp (by rw [hrows]; exact List.mem_cons_self ..)
      simp only [List.mem_filter, decide_eq_true_eq] at hf
      rw [eq_of_name s hf.1 he (hf.2.trans hname.symm)]
      rfl

/-- Rows that are those of a pass in another order say the same. -/
theorem several_read (s : Session) {rows : List Entry} {matching : Entry → Bool} (h : rows.Perm (s.entries.filter matching)) :
    (if rows = [] then none else some (ofMatches rows)) =
      (if s.entries.filter matching = [] then Found.nothing else .several (s.entries.filter matching)).read := by
  by_cases hnil : rows = []
  · have hfilter : s.entries.filter matching = [] := by
      rw [hnil] at h
      exact h.symm.eq_nil
    rw [if_pos hnil, if_pos hfilter]
    rfl
  · have hfilter : s.entries.filter matching ≠ [] := by
      intro hfilter
      rw [hfilter] at h
      exact hnil h.eq_nil
    rw [if_neg hnil, if_neg hfilter, ofMatches_perm h]
    rfl

theorem lookupWithName_eq (s : Session) (normalized : Text) : lookupWithName s normalized = (pass s liked normalized).read := by
  unfold lookupWithName pass
  rw [select_head]
  cases named s normalized with
  | some e => rfl
  | none => exact several_read s (s.select_perm _)

theorem byName_perm (s : Session) :
    ((byName s).map Prod.snd).Perm s.entries ∧ ∀ normalized, Dict.get? (byName s) normalized = named s normalized := by
  have hall : (s.select fun _ => true).Perm s.entries := by
    have hperm := s.select_perm fun _ => true
    rwa [List.filter_true] at hperm
  have hkeys : (Dict.keys ((s.select fun _ => true).map fun e => (e.normalizedName, e))).Nodup := by
    rw [Dict.keys, List.map_map]
    exact ((hall.map _).nodup_iff).mpr s.distinct
  have hbyName : byName s = (s.select fun _ => true).map fun e => (e.normalizedName, e) := Dict.ofItems_self hkeys
  refine ⟨?_, fun normalized => ?_⟩
  · rw [hbyName, List.map_map]
    simpa [Function.comp_def] using hall
  · refine Option.ext fun e => ?_
    rw [named_iff, hbyName]
    constructor
    · intro h
      obtain ⟨f, hf, heq⟩ := List.mem_map.mp (Dict.mem_of_get? h)
      cases heq
      exact ⟨hall.mem_iff.mp hf, rfl⟩
    · rintro ⟨he, rfl⟩
      exact Dict.get?_of_mem hkeys (List.mem_map.mpr ⟨e, hall.mem_iff.mpr he, rfl⟩)

theorem matchName_eq (s : Session) (normalized : Text) :
    matchName (byName s) normalized = (pass s prefixed normalized).read := by
  obtain ⟨hperm, hget⟩ := byName_perm s
  unfold matchName pass
  rw [hget]
  cases named s normalized with
  | some e => rfl
  | none => exact several_read s (hperm.filter _)

/-- The second spelling is tried where nothing is found under the first. -/
theorem found_read (s : Session) (matching : Text → Entry → Bool) (normalized : Text) :
    ((pass s matching normalized).read).or ((altNormalize normalized).bind fun alt => (pass s matching alt).read) =
      (found s matching normalized).read := by
  unfold found
  cases hpass : pass s matching normalized with
  | nothing =>
    cases altNormalize normalized with
    | none => rfl
    | some alt => rfl
  | entry e => rfl
  | several found => rfl

theorem lookup_eq (lower : Text → Text) (s : Session) (name : Text) :
    lookupModelMetadata lower s name = ((found s liked (normalizeModelName lower name)).read).getD unknown := by
  rw [← found_read, ← lookupWithName_eq]
  simp only [← lookupWithName_eq]
  rfl

theorem batchOne_eq (lower : Text → Text) (s : Session) (name : Text) :
    batchOne lower s name = ((found s prefixed (normalizeModelName lower name)).read).getD unknown := by
  rw [← found_read, ← matchName_eq]
  simp only [← matchName_eq]
  rfl

/-- What is known is never what stands for nothing. -/
theorem getD_unknown {f g : Found} : f.read.getD unknown = g.read.getD unknown ↔ f.read = g.read := by
  have hknown : ∀ {f : Found} {r}, f.read = some r → r ≠ unknown := by
    rintro f r hr rfl
    obtain ⟨-, ⟨b, hb, -⟩, -⟩ := read_some hr
    cases hb
  refine ⟨fun h => ?_, fun h => by rw [h]⟩
  cases hf : f.read with
  | none =>
    cases hg : g.read with
    | none => rfl
    | some r =>
      rw [hf, hg] at h
      exact absurd h.symm (hknown hg)
  | some q =>
    cases hg : g.read with
    | none =>
      rw [hf, hg] at h
      exact absurd h (hknown hf)
    | some r =>
      rw [hf, hg] at h
      exact congrArg some h

theorem get?_batch (lower : Text → Text) (s : Session) {names : List Text} {name : Text} (h : name ∈ names) :
    Dict.get? (batchLookupModelMetadata lower s names) name = some (batchOne lower s name) := by
  have hrun : ∀ results, (name ∈ names ∨ Dict.get? results name = some (batchOne lower s name)) →
      Dict.get? (names.foldl (fun results name => Dict.set results name (batchOne lower s name)) results) name =
        some (batchOne lower s name) := by
    clear h
    induction names with
    | nil =>
      intro results h
      exact h.resolve_left List.not_mem_nil
    | cons first names ih =>
      intro results h
      refine ih _ ?_
      by_cases heq : first = name
      · rw [heq]
        exact .inr (Dict.get?_set_self ..)
      · rw [Dict.get?_set_other _ _ heq]
        exact h.imp_left fun hmem => (List.mem_cons.mp hmem).resolve_left (Ne.symm heq)
  exact hrun [] (.inl h)

theorem liked_plain {normalized : Text} (h : ∀ c ∈ normalized, Like.plain c = true) (e : Entry) :
    liked normalized e = prefixed normalized e := by
  have hone : ∀ c, Like.plain c = true → (Like.like (normalized ++ [c, '%']) e.normalizedName =
      (normalized ++ [c]).isPrefixOf e.normalizedName) := by
    intro c hc
    have hplain : ∀ d ∈ normalized ++ [c], Like.plain d = true := by
      intro d hd
      rcases List.mem_append.mp hd with hd | hd
      · exact h d hd
      · rw [List.mem_singleton.mp hd]
        exact hc
    have happ : normalized ++ [c, '%'] = normalized ++ [c] ++ ['%'] := by simp
    rw [Bool.eq_iff_iff, happ, Like.like_plain_any hplain, List.isPrefixOf_iff_prefix]
  rw [liked, prefixed, hone '-' rfl, hone '.' rfl]

theorem hyphenated_mem {prev : Option Char} {s : Text} {c : Char} (h : c ∈ hyphenated prev s) : c ∈ s ∨ c = '-' := by
  induction prev, s using hyphenated.induct with
  | case1 prev d e s hif ih =>
    rw [hyphenated, if_pos hif] at h
    simp only [List.mem_cons] at h ih ⊢
    tauto
  | case2 prev d e s hif ih =>
    rw [hyphenated, if_neg hif] at h
    simp only [List.mem_cons] at h ih ⊢
    tauto
  | case3 prev s hs =>
    rw [hyphenated] at h
    · exact .inl h
    · exact hs

theorem pass_plain (s : Session) {normalized : Text} (h : ∀ c ∈ normalized, Like.plain c = true) :
    pass s liked normalized = pass s prefixed normalized := by
  have hsame : liked normalized = prefixed normalized := funext (liked_plain h)
  unfold pass
  rw [hsame]

theorem altNormalize_plain {normalized alt : Text} (halt : altNormalize normalized = some alt)
    (h : ∀ c ∈ normalized, Like.plain c = true) : ∀ c ∈ alt, Like.plain c = true := by
  simp only [altNormalize] at halt
  split at halt
  · cases halt
    intro c hc
    rcases hyphenated_mem hc with hc | rfl
    · exact h c hc
    · rfl
  · cases halt

/-- A name without a sign of LIKE is looked up the same way. -/
theorem found_plain (s : Session) {normalized : Text} (h : ∀ c ∈ normalized, Like.plain c = true) :
    found s liked normalized = found s prefixed normalized := by
  unfold found
  rw [pass_plain s h]
  cases pass s prefixed normalized with
  | nothing =>
    cases halt : altNormalize normalized with
    | none => rfl
    | some alt => exact pass_plain s (altNormalize_plain halt h)
  | entry e => rfl
  | several found => rfl

/-- So the batch and the single look-up agree on it. -/
theorem batch_plain (lower : Text → Text) (s : Session) {names : List Text} {name : Text} (hname : name ∈ names)
    (h : ∀ c ∈ normalizeModelName lower name, Like.plain c = true) :
    Dict.get? (batchLookupModelMetadata lower s names) name = some (lookupModelMetadata lower s name) := by
  rw [get?_batch lower s hname, batchOne_eq, lookup_eq, found_plain s h]

/-- A model of the registry, and a local one whose name has an underscore. -/
def guardEntry : Entry := ⟨"llama-guard-3-8b".toList, false, some 8192, some "chat".toList⟩

def guardSession : Session := ⟨[guardEntry], List.nodup_singleton _, fun p => [guardEntry].filter p, fun _ => .refl _⟩

theorem a_plain_name_is_found :
    Dict.get? (batchLookupModelMetadata lower guardSession ["llama-guard".toList]) "llama-guard".toList =
      some (lookupModelMetadata lower guardSession "llama-guard".toList) :=
  batch_plain lower guardSession (List.mem_singleton.mpr rfl) (List.all_eq_true.mp (by decide))

end Errand.Server.ModelLookups

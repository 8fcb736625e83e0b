import Errand.Runner.Compaction
import Mathlib.Order.Bounds.Basic

/-
  Errand.Runner.CompactionCuts — where a turn over the limit cuts the history, and which
  tool results it leaves without their calls.

  Both boundaries are least indices: one from which the recent messages fit, moved to the
  next message that is no result; one from which the rest fits behind the prompt. A result
  is orphaned when all its calls lie in the stretch between the front that is kept and the
  cut. Moving the boundary behind the results in front of it does not prevent that: of
  calls made at once one may lie before the boundary and one behind it, results may run to
  the very end, and a trim moves nothing.

  Proved:
  - `splitIndex_spec`, `trimContextWindow_spec`: the boundaries.
  - `compactContext_cutOut`: what a turn over the limit returns.
  - `compaction_keeps_the_ends`: a list returned is the prompt, a summary or none, and the
    end of the history.
  - `filterModelInput_paired_iff`: a filtered history is paired exactly if it fits, or no
    call is cut from its result.
  - `a_call_is_cut_from_its_result`: some are.
-/

namespace Errand.Runner.Compaction

open Errand.Lib
open Errand.Runner.Messages
open Errand.Runner.FileOperations

/-! ## Where a turn cuts -/

def recentTokens (messages : List Json) (i : Nat) : Nat :=
  ((messages.drop i).map fun m => estimateTokens [m]).sum

def outputAt (messages : List Json) (k : Nat) : Bool := (messages[k]?).any isFunctionCallOutput

/-- Where a compaction cuts: at the first index the recent messages fit from, but behind
    the prompt and one message more and before the last, and then at the first from there
    that is no result, or the last of all. -/
def SummaryCut (messages : List Json) (k : Nat) : Prop :=
  ∃ i, IsLeast {i | recentTokens messages i ≤ keepRecentTokens} i ∧
    IsLeast {k | max 2 (min i (messages.length - 1)) ≤ k ∧
      (messages.length - 1 ≤ k ∨ outputAt messages k = false)} k

namespace Setup

variable (R : Setup)

/-- Where a trim cuts: at the first index from which the rest fits behind the prompt, or
    the last of all. -/
def TrimCut (messages : List Json) (k : Nat) : Prop :=
  IsLeast {k | 1 ≤ k ∧ (messages.length - 1 ≤ k ∨
    (estimateTokens (messages.take 1 ++ messages.drop k) : Int) ≤ R.trimTarget)} k

/-- A turn over the limit ends in a summary: it is not suppressed, and the held summary
    covers just what is to be summarised, or the model is asked and has an answer. -/
def Summarises (st : State) (reply : Reply) (toSummarize : List Json) : Prop :=
  compactionSuppressed { st with turn := st.turn + 1 } = false ∧
    ((∃ summary, R.matchHeldSummary st toSummarize = some (summary, [])) ∨
      R.configured = true ∧ ∃ s, reply = .text s ∧ isBlank s = false)

/-- The front a turn over the limit keeps, and where it cuts. -/
inductive Cut (st : State) (reply : Reply) (messages : List Json) : List Json → Nat → Prop
  | summary {k : Nat} : SummaryCut messages k → R.Summarises st reply (dropped messages (front messages) k) →
      Cut st reply messages (front messages) k
  | trim {i k : Nat} : SummaryCut messages i → ¬ R.Summarises st reply (dropped messages (front messages) i) →
      R.TrimCut messages k → Cut st reply messages (messages.take 1) k

/-- No tool result behind the cut has its call, or all its calls, in the stretch dropped. -/
def KeepsPairs (st : State) (reply : Reply) (messages : List Json) : Prop :=
  ∀ front k, R.Cut st reply messages front k →
    ¬ pairing.Severed (front.map kind) ((dropped messages front k).map kind) ((messages.drop k).map kind)

end Setup

/-! ## The boundaries -/

theorem recentTokens_le (messages : List Json) {i j : Nat} (h : i ≤ j) :
    recentTokens messages j ≤ recentTokens messages i := by
  unfold recentTokens
  obtain ⟨d, rfl⟩ := Nat.exists_eq_add_of_le h
  rw [← List.drop_drop, List.map_drop]
  have hsplit := congrArg List.sum (List.take_append_drop d ((messages.drop i).map fun m => estimateTokens [m]))
  rw [List.sum_append] at hsplit
  omega

theorem recentSplit_spec (messages : List Json) : ∀ (before after : List Json) (recent : Nat),
    messages = before.reverse ++ after → recent = (after.map fun m => estimateTokens [m]).sum →
    recent ≤ keepRecentTokens →
    ∃ i, IsLeast {i | recentTokens messages i ≤ keepRecentTokens} i ∧ recentSplit recent before = max 1 i := by
  intro before
  induction before with
  | nil =>
    intro after recent hm hr hle
    refine ⟨0, ⟨?_, fun _ _ => Nat.zero_le _⟩, rfl⟩
    show recentTokens messages 0 ≤ _
    rw [recentTokens, List.drop_zero, hm, List.reverse_nil, List.nil_append, ← hr]
    exact hle
  | cons m before ih =>
    intro after recent hm hr hle
    have hm' : messages = before.reverse ++ m :: after := by rw [hm]; simp
    unfold recentSplit
    by_cases hk : keepRecentTokens < recent + estimateTokens [m]
    · rw [if_pos hk]
      refine ⟨before.length + 1, ⟨?_, ?_⟩, by omega⟩
      · show recentTokens messages (before.length + 1) ≤ _
        rw [recentTokens, hm, List.drop_left' (by simp), ← hr]
        exact hle
      · intro j hj
        by_contra hlt
        have hle : recentTokens messages before.length ≤ keepRecentTokens :=
          (recentTokens_le messages (by omega : j ≤ before.length)).trans hj
        rw [recentTokens, hm', List.drop_left' (by simp), List.map_cons, List.sum_cons, ← hr] at hle
        omega
    · rw [if_neg hk]
      exact ih (m :: after) _ hm' (by rw [hr, List.map_cons, List.sum_cons, Nat.add_comm]) (by omega)

theorem snapFrom_spec {messages : List Json} {limit : Nat} : ∀ (l : List Json) (i : Nat), messages.drop i = l →
    IsLeast {k | i ≤ k ∧ (limit ≤ k ∨ outputAt messages k = false)} (snapFrom limit l i) := by
  intro l
  induction l with
  | nil =>
    intro i hl
    show IsLeast _ i
    refine ⟨⟨le_refl i, .inr ?_⟩, fun k hk => hk.1⟩
    rw [outputAt, List.getElem?_eq_none (List.drop_eq_nil_iff.mp hl)]
    rfl
  | cons m l ih =>
    intro i hl
    have hget : messages[i]? = some m := by
      rw [← List.head?_drop, hl]
      rfl
    have hnext : messages.drop (i + 1) = l := by
      rw [← List.drop_drop, hl]
      rfl
    unfold snapFrom
    split
    · rename_i h
      simp only [Bool.and_eq_true, decide_eq_true_eq] at h
      obtain ⟨⟨hge, hstop⟩, hleast⟩ := ih (i + 1) hnext
      refine ⟨⟨by omega, hstop⟩, ?_⟩
      intro k hx
      obtain ⟨hik, hk⟩ := hx
      apply hleast
      refine ⟨?_, hk⟩
      rcases Nat.lt_or_eq_of_le hik with hlt | rfl
      · exact hlt
      · rcases hk with hk | hk
        · omega
        · rw [outputAt, hget, Option.any_some, h.2] at hk
          cases hk
    · rename_i h
      refine ⟨⟨le_refl i, ?_⟩, fun k hk => hk.1⟩
      rw [outputAt, hget, Option.any_some]
      by_cases hi : i < limit
      · right
        simpa [hi] using h
      · exact .inl (by omega)

theorem splitIndex_spec {messages : List Json} (h : 2 < messages.length) :
    SummaryCut messages (splitIndex messages) := by
  obtain ⟨i, hi, hs⟩ := recentSplit_spec messages messages.reverse [] 0 (by simp) rfl (by decide)
  refine ⟨i, hi, ?_⟩
  have hclamp : max 2 (min (recentSplit 0 messages.reverse) (messages.length - 1)) =
      max 2 (min i (messages.length - 1)) := by
    rw [hs]
    omega
  unfold splitIndex snapSplitForward
  rw [hclamp]
  exact snapFrom_spec _ _ rfl

namespace Setup

variable {R : Setup}

theorem trimRest_spec (first rest : List Json) :
    ∃ d, R.trimRest first rest = rest.drop d ∧
      IsLeast {d | rest.length - 1 ≤ d ∨ (estimateTokens (first ++ rest.drop d) : Int) ≤ R.trimTarget} d := by
  fun_induction R.trimRest first rest with
  | case1 m m' rest hbig ih =>
    obtain ⟨d, hd, hmem, hleast⟩ := ih
    refine ⟨d + 1, hd, ?_, ?_⟩
    · rcases hmem with hmem | hmem
      · left
        simp only [List.length_cons] at hmem ⊢
        omega
      · exact .inr hmem
    · intro h hj
      rcases h with _ | j
      · rcases hj with hj | hj
        · simp only [List.length_cons] at hj
          omega
        · rw [List.drop_zero] at hj
          omega
      · refine Nat.succ_le_succ (hleast ?_)
        rcases hj with hj | hj
        · left
          simp only [List.length_cons] at hj ⊢
          omega
        · exact .inr hj
  | case2 m m' rest hfits =>
    exact ⟨0, rfl, .inr (by rw [List.drop_zero]; omega), fun _ _ => Nat.zero_le _⟩
  | case3 rest hshort =>
    refine ⟨0, rfl, .inl ?_, fun _ _ => Nat.zero_le _⟩
    cases rest with
    | nil => exact Nat.zero_le _
    | cons m rest =>
      cases rest with
      | nil => exact Nat.zero_le _
      | cons m' rest => exact absurd rfl (hshort m m' rest)

theorem trimContextWindow_spec {messages : List Json} (h : R.fits messages = false) :
    ∃ k, R.TrimCut messages k ∧ R.trimContextWindow messages = messages.take 1 ++ messages.drop k := by
  obtain ⟨d, hd, hmem, hleast⟩ := trimRest_spec (R := R) (messages.take 1) (messages.drop 1)
  have hdrop : ∀ j, (messages.drop 1).drop j = messages.drop (j + 1) := by
    intro j
    rw [List.drop_drop, Nat.add_comm]
  refine ⟨d + 1, ⟨⟨by omega, ?_⟩, ?_⟩, ?_⟩
  · rw [← hdrop]
    rcases hmem with hmem | hmem
    · left
      rw [List.length_drop] at hmem
      omega
    · exact .inr hmem
  · intro j hx
    obtain ⟨hj, hstop⟩ := hx
    obtain ⟨j, rfl⟩ := Nat.exists_eq_add_of_le' hj
    refine Nat.succ_le_succ (hleast ?_)
    rw [← hdrop] at hstop
    rcases hstop with hstop | hstop
    · left
      rw [List.length_drop]
      omega
    · exact .inr hstop
  · rw [trimContextWindow, h, if_neg (by decide), hd, hdrop]

/-! ## What a turn returns -/

theorem fits_length {messages : List Json} (h : R.fits messages = false) : 2 < messages.length := by
  simp only [fits, Bool.or_eq_false_iff, decide_eq_false_iff_not] at h
  omega

/-- A list a turn over the limit returns: the front and what is behind the cut, with or
    without a summary between them. -/
def CutOut (R : Setup) (st : State) (reply : Reply) (messages out : List Json) : Prop :=
  ∃ front k, R.Cut st reply messages front k ∧
    (out = front ++ messages.drop k ∨ ∃ s, out = front ++ summaryMessage s :: messages.drop k)

theorem cutOut_trim {st : State} {reply : Reply} {messages : List Json} (h : R.fits messages = false)
    (hno : ¬ R.Summarises st reply (dropped messages (front messages) (splitIndex messages))) :
    R.CutOut st reply messages (R.trimContextWindow messages) := by
  obtain ⟨k, hk, htrim⟩ := trimContextWindow_spec h
  exact ⟨_, k, .trim (splitIndex_spec (fits_length h)) hno hk, .inl htrim⟩

theorem cutOut_summary {st : State} {reply : Reply} {messages : List Json} (h : R.fits messages = false)
    (hyes : R.Summarises st reply (dropped messages (front messages) (splitIndex messages))) (s : String) :
    R.CutOut st reply messages (front messages ++ summaryMessage s :: messages.drop (splitIndex messages)) :=
  ⟨_, _, .summary (splitIndex_spec (fits_length h)) hyes, .inr ⟨s, rfl⟩⟩

/-- A turn over the limit that returns ends in a summary, or trims the history. -/
theorem compactContext_returned {st : State} {reply : Reply} {messages out : List Json} (h : R.fits messages = false)
    (hout : (R.compactContext st reply messages).1 = .ok out) :
    (R.Summarises st reply (dropped messages (front messages) (splitIndex messages)) ∧
      ∃ s, out = front messages ++ summaryMessage s :: messages.drop (splitIndex messages)) ∨
    (¬ R.Summarises st reply (dropped messages (front messages) (splitIndex messages)) ∧
      out = R.trimContextWindow messages) := by
  unfold compactContext at hout
  rw [h, if_neg (by decide)] at hout
  simp only at hout
  split at hout
  · cases hout
  · rename_i l hp
    cases hout
    rcases plan_spec hp with ⟨hsup, hl⟩ | ⟨hsup, hp⟩
    · cases hl
      refine .inr ⟨?_, rfl⟩
      intro hx
      obtain ⟨hn, -⟩ := hx
      rw [hsup] at hn
      cases hn
    · cases hp with
      | reused hm => exact .inl ⟨⟨hsup, .inl ⟨_, hm⟩⟩, _, rfl⟩
      | unconfigured hcov hconf =>
        refine .inr ⟨?_, rfl⟩
        intro hx
        rcases hx with ⟨-, hc | ⟨hc, -⟩⟩
        · exact hcov hc
        · rw [hconf] at hc
          cases hc
  · rename_i q hp
    rcases plan_spec hp with ⟨-, hl⟩ | ⟨hsup, hp⟩
    · cases hl
    · cases hp with
      | asked hcov hconf hq =>
        unfold conclude at hout
        split at hout
        · cases hout
        · rename_i hnone
          cases hout
          refine .inr ⟨?_, rfl⟩
          intro hx
          rcases hx with ⟨-, hc | ⟨-, s, hs, hb⟩⟩
          · exact hcov hc
          · rw [newSummary_none hnone s hs] at hb
            cases hb
        · rename_i summary hsome
          cases hout
          obtain ⟨s, lists, hs, hb, -, -⟩ := newSummary_some hsome
          rw [hq.preserved, hq.toKeep]
          exact .inl ⟨⟨hsup, .inr ⟨hconf, s, hs, hb⟩⟩, summary, rfl⟩

theorem compactContext_cutOut {st : State} {reply : Reply} {messages out : List Json} (h : R.fits messages = false)
    (hout : (R.compactContext st reply messages).1 = .ok out) : R.CutOut st reply messages out := by
  rcases compactContext_returned h hout with ⟨hyes, s, rfl⟩ | ⟨hno, rfl⟩
  · exact cutOut_summary h hyes s
  · exact cutOut_trim h hno

/-! ## The ends -/

theorem splitIndex_within {messages : List Json} (h : 2 < messages.length) :
    2 ≤ splitIndex messages ∧ splitIndex messages < messages.length := by
  obtain ⟨i, -, ⟨hle, -⟩, hleast⟩ := splitIndex_spec h
  have hlast : splitIndex messages ≤ messages.length - 1 := hleast ⟨by omega, Or.inl (Nat.le_refl _)⟩
  omega

theorem trimCut_within {messages : List Json} {k : Nat} (h : 2 < messages.length) (hk : R.TrimCut messages k) :
    1 ≤ k ∧ k < messages.length := by
  obtain ⟨⟨hone, -⟩, hleast⟩ := hk
  have hlast : k ≤ messages.length - 1 := hleast ⟨by omega, Or.inl (Nat.le_refl _)⟩
  omega

end Setup

/-- The first message, a summary or none, and a piece of the list's end that is not empty. -/
def KeepsEnds (first : Json) (l out : List Json) : Prop :=
  ∃ summaries recent, out = first :: (summaries ++ recent) ∧ (summaries = [] ∨ ∃ s, summaries = [summaryMessage s]) ∧
    recent ≠ [] ∧ recent <:+ l

/-- What lies behind a boundary is a piece of the end that is not empty. -/
theorem recent_of_cut {first : Json} {rest : List Json} {k : Nat} (hone : 1 ≤ k) (hk : k < (first :: rest).length) :
    (first :: rest).drop k ≠ [] ∧ (first :: rest).drop k <:+ rest := by
  obtain ⟨j, rfl⟩ : ∃ j, k = j + 1 := ⟨k - 1, by omega⟩
  rw [List.drop_succ_cons]
  refine ⟨?_, List.drop_suffix j rest⟩
  intro hnil
  have hle := List.drop_eq_nil_iff.mp hnil
  rw [List.length_cons] at hk
  omega

/-- Whatever the state and the answer, the list a turn returns for a prompt and more
    messages is the prompt, at most one summary and a piece of the end of the others that is
    not empty, and is no longer than what it was given. -/
theorem compaction_keeps_the_ends (R : Setup) (st : State) (reply : Reply) {first : Json} {rest out : List Json}
    (hfirst : isCompactionSummary first ≠ .ok true) (hrest : rest ≠ [])
    (hout : (R.compactContext st reply (first :: rest)).1 = .ok out) :
    KeepsEnds first rest out ∧ out.length ≤ (first :: rest).length := by
  cases hf : R.fits (first :: rest) with
  | true =>
    unfold Setup.compactContext at hout
    rw [hf, if_pos rfl] at hout
    cases hout
    exact ⟨⟨[], rest, rfl, .inl rfl, hrest, List.suffix_refl rest⟩, Nat.le_refl _⟩
  | false =>
    have hlen := Setup.fits_length hf
    have hfront : front (first :: rest) = [first] := by
      unfold front
      rw [List.headD_cons]
      split
      · rename_i hmarked
        exact absurd hmarked hfirst
      · rfl
    rcases Setup.compactContext_returned hf hout with ⟨-, s, rfl⟩ | ⟨-, rfl⟩
    · obtain ⟨htwo, hlt⟩ := Setup.splitIndex_within hlen
      obtain ⟨hne, hsuffix⟩ := recent_of_cut (by omega) hlt
      rw [hfront]
      refine ⟨⟨[summaryMessage s], _, rfl, .inr ⟨s, rfl⟩, hne, hsuffix⟩, ?_⟩
      rw [List.singleton_append, List.length_cons, List.length_cons, List.length_drop]
      omega
    · obtain ⟨k, hk, htrim⟩ := Setup.trimContextWindow_spec hf
      obtain ⟨hone, hlt⟩ := Setup.trimCut_within hlen hk
      obtain ⟨hne, hsuffix⟩ := recent_of_cut hone hlt
      rw [htrim]
      refine ⟨⟨[], _, rfl, .inl rfl, hne, hsuffix⟩, ?_⟩
      rw [List.length_append, List.length_take, List.length_drop]
      omega

namespace Setup

variable {R : Setup}

/-! ## Pairs -/

theorem cut_unique {st : State} {reply : Reply} {messages front front' : List Json} {k k' : Nat}
    (h : R.Cut st reply messages front k) (h' : R.Cut st reply messages front' k') : front' = front ∧ k' = k := by
  have same : ∀ {i j : Nat}, SummaryCut messages i → SummaryCut messages j → j = i := by
    intro i j hx hp
    obtain ⟨a, ha, hi⟩ := hx
    obtain ⟨b, hb, hj⟩ := hp
    rw [hb.unique ha] at hj
    exact hj.unique hi
  cases h with
  | summary hk hs =>
    cases h' with
    | summary hk' _ => exact ⟨rfl, same hk hk'⟩
    | trim hi hno _ =>
      rw [same hk hi] at hno
      exact absurd hs hno
  | trim hi hno hk =>
    cases h' with
    | summary hk' hs' =>
      rw [same hi hk'] at hs'
      exact absurd hs' hno
    | trim _ _ hk' => exact ⟨rfl, hk'.unique hk⟩

/-- The front is a piece of the list that ends before the cut. -/
theorem cut_front {messages front : List Json} {k : Nat} {st : State} {reply : Reply}
    (h : R.Cut st reply messages front k) : ∃ n ≤ k, front = messages.take n := by
  cases h with
  | summary hk hs =>
    obtain ⟨i, -, ⟨hle, -⟩, -⟩ := hk
    unfold Compaction.front
    split
    · exact ⟨0, Nat.zero_le _, rfl⟩
    · exact ⟨1, by omega, rfl⟩
  | trim hi hno hk => exact ⟨1, hk.1.1, rfl⟩

theorem front_append_dropped {messages front : List Json} {k : Nat} {st : State} {reply : Reply}
    (h : R.Cut st reply messages front k) : front ++ dropped messages front k ++ messages.drop k = messages := by
  obtain ⟨n, hn, rfl⟩ := cut_front h
  have hpre : messages.take n <+: messages.take k := List.take_prefix_take_left hn
  unfold dropped
  rw [List.prefix_iff_eq_append.mp hpre, List.take_append_drop]

theorem summaryMessage_kind (s : String) : kind (summaryMessage s) = .other := rfl

/-- A turn that cuts leaves a paired history paired exactly if it severs no pair. -/
theorem cutOut_paired_iff {st : State} {reply : Reply} {messages out : List Json} (hm : Paired messages)
    (h : R.CutOut st reply messages out) : Paired out ↔ R.KeepsPairs st reply messages := by
  obtain ⟨front, k, hcut, hout⟩ := h
  have hm : pairing.Matched (front.map kind ++ (dropped messages front k).map kind ++ (messages.drop k).map kind) := by
    rw [← List.map_append, ← List.map_append, front_append_dropped hcut]
    exact hm
  have hsev : Paired out ↔
      ¬ pairing.Severed (front.map kind) ((dropped messages front k).map kind) ((messages.drop k).map kind) := by
    rw [← Pairing.matched_cut_iff hm]
    unfold Paired
    rcases hout with rfl | ⟨s, rfl⟩
    · rw [List.map_append]
    · rw [List.map_append, List.map_cons, summaryMessage_kind]
      exact Pairing.matched_insert rfl rfl _ _
  rw [hsev]
  constructor
  · intro hno front' k' hcut'
    obtain ⟨rfl, rfl⟩ := cut_unique hcut hcut'
    exact hno
  · intro hkeep
    exact hkeep front k hcut

end Setup

/-- A history in which every tool result comes after its call is filtered into one exactly
    if it fits the limit, or the turn cuts no call from its result, where the cut is the
    one for the recent messages if the turn ends in a summary, and else the one for the
    trimmed list. -/
theorem filterModelInput_paired_iff (R : Setup) (st : State) (reply : Reply) {messages out : List Json}
    (hm : Paired messages) (hout : (R.filterModelInput st reply messages).1 = .ok out) :
    ∃ sanitized, sanitizeToolCalls R.py messages = .ok sanitized ∧
      (Paired out ↔ R.fits (stripScreenshots R.maxRetainedScreenshots sanitized) = true ∨
        R.KeepsPairs st reply (stripScreenshots R.maxRetainedScreenshots sanitized)) := by
  unfold Setup.filterModelInput at hout
  split at hout
  · cases hout
  · rename_i sanitized hs
    refine ⟨sanitized, hs, ?_⟩
    have hpaired : Paired (stripScreenshots R.maxRetainedScreenshots sanitized) := by
      unfold Paired
      rw [stripScreenshots_kinds, sanitizeToolCalls_kinds hs]
      exact hm
    cases hf : R.fits (stripScreenshots R.maxRetainedScreenshots sanitized) with
    | true =>
      unfold Setup.compactContext at hout
      rw [hf, if_pos rfl] at hout
      cases hout
      exact iff_of_true hpaired (.inl rfl)
    | false =>
      rw [Setup.cutOut_paired_iff hpaired (Setup.compactContext_cutOut hf hout)]
      constructor
      · exact .inr
      · intro hx
        rcases hx with h | h
        · cases h
        · exact h

/-! ## Runs -/

/-- A runner with a small window, whose tool calls all parse. -/
def small : Setup :=
  { py := ⟨fun _ => .value (.obj []), fun _ => "", Char.isAlphanum, Char.isDigit, String.toUpper⟩
    env := fun key => if key = "OPENAI_MODEL" then "model" else if key = "OPENAI_API_KEY" then "key" else ""
    maxContextTokens := 20
    trimTarget := 12
    maxRetainedScreenshots := 2
    sha256 := fun _ => ""
    prompts := ⟨id, fun _ conversation => conversation⟩ }

def userMessage (text : String) : Json := .obj [("role", .str "user"), ("content", .str text)]

def search (id : String) : Json :=
  .obj [("type", .str "function_call"), ("call_id", .str id), ("name", .str "search"), ("arguments", .str "\x7b\x7d")]

def found (id : String) : Json :=
  .obj [("type", .str "function_call_output"), ("call_id", .str id), ("output", .str "nothing")]

set_option maxRecDepth 4000 in
theorem a_prompt_and_a_result_are_kept :
    KeepsEnds (userMessage "go") [search "c", found "c"] [userMessage "go", summaryMessage "s", found "c"] ∧
      [userMessage "go", summaryMessage "s", found "c"].length ≤ [userMessage "go", search "c", found "c"].length :=
  compaction_keeps_the_ends small initial (.text "s") (by rw [show isCompactionSummary _ = .ok false from rfl]; nofun)
    nofun rfl

/-- A prompt that stands alone is returned as it is, with nothing behind it. -/
theorem a_lone_prompt_has_no_end :
    ¬ ∀ (R : Setup) (st : State) (reply : Reply) (first : Json) (rest out : List Json),
      isCompactionSummary first ≠ .ok true → (R.compactContext st reply (first :: rest)).1 = .ok out →
        KeepsEnds first (first :: rest) out ∧ out.length ≤ (first :: rest).length := by
  intro h
  have hfirst : isCompactionSummary (userMessage "go") ≠ .ok true := by
    rw [show isCompactionSummary (userMessage "go") = .ok false from rfl]
    nofun
  obtain ⟨⟨summaries, recent, hout, -, hne, -⟩, -⟩ := h small initial .raised (userMessage "go") [] _ hfirst rfl
  obtain ⟨-, hnil⟩ := List.cons.inj hout
  exact hne (List.append_eq_nil_iff.mp hnil.symm).2

/-- What the user says, a call and its result. -/
theorem paired_search (texts : List String) (id : String) :
    Paired (texts.map userMessage ++ [search id, found id]) := by
  have htexts : pairing.MatchedAfter [] ((texts.map userMessage).map kind) := by
    intro pre x post c hl hc
    have hx : x ∈ (texts.map userMessage).map kind := by rw [hl]; simp
    obtain ⟨m, hm, rfl⟩ := List.mem_map.mp hx
    obtain ⟨text, -, rfl⟩ := List.mem_map.mp hm
    cases hc
  unfold Paired Pairing.Matched
  rw [List.map_append, Pairing.matchedAfter_append]
  refine ⟨htexts, ?_⟩
  show pairing.MatchedAfter _ [.call (some (.str id)), .output (some (.str id))]
  rw [Pairing.matchedAfter_cons, Pairing.matchedAfter_singleton]
  constructor
  · intro c hc
    cases hc
  · intro c hc
    cases hc
    exact ⟨.call (some (.str id)), by simp, rfl⟩

set_option maxRecDepth 4000 in
theorem a_pair_is_kept :
    small.KeepsPairs initial (.text "s") [userMessage "go", userMessage "on", search "c", found "c"] := by
  have hm : Paired [userMessage "go", userMessage "on", search "c", found "c"] := paired_search ["go", "on"] "c"
  have hout : (small.filterModelInput initial (.text "s")
      [userMessage "go", userMessage "on", search "c", found "c"]).1 =
      .ok [userMessage "go", summaryMessage "s", search "c", found "c"] := rfl
  obtain ⟨sanitized, hs, h⟩ := filterModelInput_paired_iff small initial (.text "s") hm hout
  -- nothing is sanitised or stripped, and the list is over the limit
  cases hs
  rcases h.mp (paired_search ["go", _] "c") with hfits | hkeeps
  · cases hfits
  · exact hkeeps

set_option maxRecDepth 4000 in
/-- A turn may cut between a call and its result, also where it is the last there is. -/
theorem a_call_is_cut_from_its_result :
    ¬ ∀ (R : Setup) (st : State) (reply : Reply) (messages out : List Json), Paired messages →
      (R.filterModelInput st reply messages).1 = .ok out → Paired out := by
  intro h
  have hout := h small initial (.text "s") [userMessage "go", search "c", found "c"]
    [userMessage "go", summaryMessage "s", found "c"] (paired_search ["go"] "c") rfl
  obtain ⟨y, hy, ho⟩ := hout [kind (userMessage "go"), kind (summaryMessage "s")] (kind (found "c")) [] _ rfl rfl
  rcases List.mem_cons.mp hy with rfl | hy
  · cases ho
  · rw [List.mem_singleton.mp hy] at ho
    cases ho

end Errand.Runner.Compaction

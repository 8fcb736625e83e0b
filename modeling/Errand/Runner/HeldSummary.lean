import Errand.Lib.JsonRoundTrip
import Errand.Lib.Machine
import Errand.Runner.CompactionCuts

/-
  Errand.Runner.HeldSummary — what a held summary describes.

  Beside the runner's state the account says what went into the summary it holds: the
  messages given to each prompt along its chain of merges, the first of which starts the
  chain, and a marked message that one took its existing summary from. A turn that
  completes holds a new summary, and then only the account changes: by a merge the new
  messages join the chain, by any other a chain of their own begins. The history may be
  another one in each turn.

  Two lists are the same but for the order of their objects' fields, which the digest does
  not tell apart and neither does `==`.

  Proved:
  - `compactContext_completed`, `compactContext_kept`: a turn that completes holds its
    summary of what it summarises, any other leaves the held summary alone.
  - `Accounted`, `reach_accounted`: the state's count and digest are those of the account.
  - `held_summary_covers`: a held summary is used only for the messages of its account,
    and a completed turn accounts for all it summarises.
  - `a_marked_message_is_not_serialized`: the message a chain begins behind is in no prompt.
-/

namespace Errand.Runner.Compaction

open Errand.Lib
open Errand.Runner.Messages

/-! ## Turns that complete -/

namespace Setup

variable (R : Setup)

/-- The request a turn makes and the summary it ends in, if it makes one and there is one. -/
def completed (st : State) (reply : Reply) (messages : List Json) : Option (Request × String) :=
  if R.fits messages then none
  else
    match R.plan { st with turn := st.turn + 1 } messages with
    | .ok (.request q) =>
      match q.newSummary reply with
      | .ok (some summary) => some (q, summary)
      | _ => none
    | _ => none

variable {R}

theorem compactContext_completed {st : State} {reply : Reply} {messages : List Json} {q : Request} {summary : String}
    (h : R.completed st reply messages = some (q, summary)) :
    R.Asks { st with turn := st.turn + 1 } (front messages) (summarised messages) (messages.drop (splitIndex messages)) q ∧
      q.newSummary reply = .ok (some summary) ∧
      (R.compactContext st reply messages).2 =
        recordCompactionSuccess (R.holdSummary { st with turn := st.turn + 1 } summary (summarised messages)) := by
  unfold completed at h
  cases hf : R.fits messages with
  | true =>
    rw [hf, if_pos rfl] at h
    cases h
  | false =>
    rw [hf, if_neg (by decide)] at h
    split at h
    · rename_i q' hp
      split at h
      · rename_i summary' hs
        cases h
        rcases plan_spec hp with ⟨-, hx⟩ | ⟨-, hprep⟩
        · cases hx
        · cases hprep with
          | asked _ _ hq =>
            refine ⟨hq, hs, ?_⟩
            unfold compactContext
            rw [hf, if_neg (by decide), ← hq.toSummarize]
            simp only [hp, conclude, hs]
      · cases h
    · cases h

theorem compactContext_kept {st : State} {reply : Reply} {messages : List Json}
    (h : R.completed st reply messages = none) :
    (R.compactContext st reply messages).2.summary = st.summary ∧
      (R.compactContext st reply messages).2.coveredDigest = st.coveredDigest ∧
      (R.compactContext st reply messages).2.coveredCount = st.coveredCount := by
  unfold completed at h
  unfold compactContext
  cases hf : R.fits messages with
  | true => exact ⟨rfl, rfl, rfl⟩
  | false =>
    rw [hf, if_neg (by decide)] at h
    rw [if_neg (by decide)]
    simp only
    split at h
    · rename_i q hp
      rw [hp]
      simp only [conclude]
      split at h
      · cases h
      · rename_i hno
        split
        · exact ⟨rfl, rfl, rfl⟩
        · exact ⟨rfl, rfl, rfl⟩
        · rename_i summary hs
          exact absurd hs (hno summary)
    · rename_i hno
      split
      · exact ⟨rfl, rfl, rfl⟩
      · exact ⟨rfl, rfl, rfl⟩
      · rename_i q hp
        exact absurd hp (hno q)

end Setup

/-! ## The account -/

/-- What went into a held summary: the marked message its chain began behind, if it did,
    and the messages serialised into each prompt. -/
structure Account where
  lead : List Json
  chain : List (List Json)

def Account.covered (a : Account) : List Json := a.lead ++ a.chain.flatten

/-- A merge goes on with the chain, any other request starts one. -/
def Account.record (a : Account) (q : Setup.Request) : Account :=
  if q.held then ⟨a.lead, a.chain ++ [q.new]⟩
  else ⟨q.toSummarize.take (q.toSummarize.length - q.new.length), [q.new]⟩

structure Recorded where
  state : State
  account : Account

inductive Event where
  | turn (reply : Reply) (messages : List Json)
  | resetBackoff
  | resetSummary

/-- A runner over its turns and resets. -/
def machine (R : Setup) : Machine Recorded Event where
  init r := r = ⟨initial, [], []⟩
  step
    | r, .turn reply messages =>
      some ⟨(R.compactContext r.state reply messages).2,
        match R.completed r.state reply messages with
        | some (q, _) => r.account.record q
        | none => r.account⟩
    | r, .resetBackoff => some ⟨resetCompactionBackoff r.state, r.account⟩
    | r, .resetSummary => some ⟨resetCompactionSummary r.state, [], []⟩

theorem step_completed {R : Setup} {r : Recorded} {reply : Reply} {messages : List Json} {q : Setup.Request}
    {summary : String} (h : R.completed r.state reply messages = some (q, summary)) :
    (machine R).step r (.turn reply messages) =
      some ⟨(R.compactContext r.state reply messages).2, r.account.record q⟩ := by
  simp only [machine, h]

/-! ## Digests -/

/-- The same messages, but for the order of the fields in an object. -/
def Same (a b : List Json) : Prop := a.map Json.sortKeys = b.map Json.sortKeys

theorem Same.length {a b : List Json} (h : Same a b) : a.length = b.length := by
  have hlength := congrArg List.length h
  rwa [List.length_map, List.length_map] at hlength

theorem Same.append {a b : List Json} (h : Same a b) (c : List Json) : Same (a ++ c) (b ++ c) := by
  unfold Same
  rw [List.map_append, List.map_append, h]

theorem sortKeys_arr (messages : List Json) : (Json.arr messages).sortKeys = .arr (messages.map Json.sortKeys) := by
  have hitems : ∀ l, Json.sortItems l = l.map Json.sortKeys := by
    intro l
    induction l with
    | nil => rfl
    | cons m l ih => rw [Json.sortItems, ih, List.map_cons]
  rw [Json.sortKeys, hitems]

/-- No two message lists with distinct serialisations have one digest. -/
def Setup.NoCollisions (R : Setup) : Prop :=
  ∀ a b : List Json, R.digestMessages a = R.digestMessages b →
    Json.dumps (Json.arr a).sortKeys = Json.dumps (Json.arr b).sortKeys

variable {R : Setup}

theorem digest_same {a b : List Json} (h : Same a b) : R.digestMessages a = R.digestMessages b := by
  unfold Setup.digestMessages
  rw [sortKeys_arr, sortKeys_arr, h]

theorem same_of_digest (hsha : R.NoCollisions) {a b : List Json} (h : R.digestMessages a = R.digestMessages b) :
    Same a b := by
  have htext := hsha a b h
  rw [sortKeys_arr, sortKeys_arr] at htext
  exact Json.arr.inj (Json.write_injective Json.spaced_valid htext)

/-! ## A held summary is accounted for -/

/-- The digest and the count of a held summary are those of its account. -/
structure Accounted (R : Setup) (r : Recorded) : Prop where
  digest : r.state.summary.isEmpty = false → r.state.coveredDigest = R.digestMessages r.account.covered
  count : r.state.summary.isEmpty = false → r.state.coveredCount = r.account.covered.length
  lead : r.account.lead = [] ∨ ∃ m, r.account.lead = [m] ∧ isCompactionSummary m = .ok true

/-- Where the held summary covers a prefix, that is what its account covers. -/
theorem match_same (hsha : R.NoCollisions) {r : Recorded} (hr : Accounted R r) {toSummarize new : List Json}
    {summary : String} (h : R.matchHeldSummary r.state toSummarize = some (summary, new)) :
    Same r.account.covered (toSummarize.take r.state.coveredCount) ∧
      toSummarize.take r.state.coveredCount ++ new = toSummarize := by
  obtain ⟨hs, -, -, hdigest, rfl⟩ := Setup.matchHeldSummary_some h
  rw [hr.digest hs] at hdigest
  exact ⟨same_of_digest hsha hdigest.symm, List.take_append_drop ..⟩

/-- A completed request accounts for all it summarises. -/
theorem record_same (hsha : R.NoCollisions) {r : Recorded} (hr : Accounted R r) {first last toSummarize : List Json}
    {q : Setup.Request} (h : R.Asks { r.state with turn := r.state.turn + 1 } first toSummarize last q) :
    Same (r.account.record q).covered toSummarize ∧
      ((r.account.record q).lead = [] ∨ ∃ m, (r.account.record q).lead = [m] ∧ isCompactionSummary m = .ok true) := by
  unfold Account.record
  cases h.begins with
  | held hq hm _ =>
    rw [hq, if_pos rfl]
    refine ⟨?_, hr.lead⟩
    have hm : R.matchHeldSummary r.state toSummarize = some (q.existing, q.new) := hm
    obtain ⟨hsame, hsplit⟩ := match_same hsha hr hm
    have hcovered : Account.covered ⟨r.account.lead, r.account.chain ++ [q.new]⟩ = r.account.covered ++ q.new := by
      simp [Account.covered]
    rw [hcovered]
    have happ := hsame.append q.new
    rwa [hsplit] at happ
  | marked hq _ hmarked =>
    obtain ⟨lead, hsplit, hlead⟩ := Setup.markedSummary_split hmarked
    have htake : q.toSummarize.take (q.toSummarize.length - q.new.length) = lead := by
      rw [h.toSummarize, hsplit, List.length_append, Nat.add_sub_cancel, List.take_left]
    rw [hq, if_neg (by decide), htake]
    refine ⟨?_, hlead⟩
    unfold Same
    rw [hsplit]
    simp [Account.covered]

theorem step_accounted (hsha : R.NoCollisions) {r r' : Recorded} {e : Event} (hr : Accounted R r)
    (h : (machine R).step r e = some r') : Accounted R r' := by
  cases e with
  | turn reply messages =>
    cases h
    cases hc : R.completed r.state reply messages with
    | none =>
      obtain ⟨hs, hd, hn⟩ := Setup.compactContext_kept hc
      refine ⟨?_, ?_, hr.lead⟩
      · intro hne
        show (R.compactContext r.state reply messages).2.coveredDigest = _
        rw [hd]
        exact hr.digest (hs ▸ hne)
      · intro hne
        show (R.compactContext r.state reply messages).2.coveredCount = _
        rw [hn]
        exact hr.count (hs ▸ hne)
    | some p =>
      obtain ⟨q, summary⟩ := p
      obtain ⟨hasks, -, hst⟩ := Setup.compactContext_completed hc
      obtain ⟨hsame, hlead⟩ := record_same hsha hr hasks
      refine ⟨?_, ?_, hlead⟩
      · intro _
        show (R.compactContext r.state reply messages).2.coveredDigest = _
        rw [hst]
        exact digest_same (Eq.symm hsame)
      · intro _
        show (R.compactContext r.state reply messages).2.coveredCount = _
        rw [hst]
        exact hsame.length.symm
  | resetBackoff =>
    cases h
    exact ⟨hr.digest, hr.count, hr.lead⟩
  | resetSummary =>
    cases h
    exact ⟨(by intro hne; cases hne), (by intro hne; cases hne), .inl rfl⟩

theorem reach_accounted (hsha : R.NoCollisions) {r : Recorded} (h : (machine R).Reach r) : Accounted R r := by
  refine Machine.Reach.inv ?_ ?_ h
  · intro s hs
    cases hs
    exact ⟨(by intro hne; cases hne), (by intro hne; cases hne), .inl rfl⟩
  · intro s e s' hs hst
    exact step_accounted hsha hs hst

/-- In every run of turns and resets, over any histories and answers: where the held
    summary is used, what it covers of the list is what was serialised along its chain, in
    order, behind a marked message the chain began with if there is one; and a turn that
    completes has all it summarises accounted for in that way. -/
theorem held_summary_covers (R : Setup) (hsha : R.NoCollisions) {r : Recorded} (h : (machine R).Reach r) :
    (r.account.lead = [] ∨ ∃ m, r.account.lead = [m] ∧ isCompactionSummary m = .ok true) ∧
      (∀ toSummarize summary new, R.matchHeldSummary r.state toSummarize = some (summary, new) →
        Same (r.account.lead ++ r.account.chain.flatten) (toSummarize.take r.state.coveredCount) ∧
          toSummarize = toSummarize.take r.state.coveredCount ++ new) ∧
      ∀ reply messages q summary r', R.completed r.state reply messages = some (q, summary) →
        (machine R).step r (.turn reply messages) = some r' →
          Same (r'.account.lead ++ r'.account.chain.flatten) (summarised messages) := by
  have hr := reach_accounted hsha h
  refine ⟨hr.lead, ?_, ?_⟩
  · intro toSummarize summary new hm
    obtain ⟨hsame, hsplit⟩ := match_same hsha hr hm
    exact ⟨hsame, hsplit.symm⟩
  · intro reply messages q summary r' hc hstep
    obtain ⟨hasks, -, -⟩ := Setup.compactContext_completed hc
    obtain ⟨hsame, -⟩ := record_same hsha hr hasks
    rw [step_completed hc] at hstep
    cases hstep
    exact hsame

/-! ## Runs -/

/-- The small runner with a digest that does not collide. -/
def digesting : Setup := { small with sha256 := String.ofList }

theorem digesting_noCollisions : digesting.NoCollisions := by
  intro a b h
  exact String.ofList_injective h

set_option maxRecDepth 8000 in
/-- A second history that begins as the first one did. -/
theorem a_first_summary_is_matched :
    Same [userMessage "on"] ([userMessage "on", userMessage "off"].take 1) := by
  have hfirst : (machine digesting).step ⟨initial, [], []⟩
      (.turn (.text "s") [userMessage "go", userMessage "on", search "c", found "c"]) =
      some ⟨⟨1, 0, 0, "s", digesting.digestMessages [userMessage "on"], 1⟩, [], [[userMessage "on"]]⟩ := rfl
  have hreach := Machine.Reach.step _ (Machine.Reach.init (M := machine digesting) rfl) hfirst
  exact ((held_summary_covers digesting digesting_noCollisions hreach).2.1
    [userMessage "on", userMessage "off"] "s" [userMessage "off"] rfl).1

/-- The history's first message is no summary. -/
def Event.Unmarked : Event → Prop
  | .turn _ messages => isCompactionSummary (messages.headD .null) = .ok false
  | .resetBackoff => True
  | .resetSummary => True

/-- The message a chain begins behind is in no prompt's conversation. -/
theorem a_marked_message_is_not_serialized :
    ¬ ∀ (R : Setup), R.NoCollisions → ∀ r, (machine R).ReachIf (fun _ e => e.Unmarked) r →
      ∀ reply messages q summary r', (Event.turn reply messages).Unmarked →
        R.completed r.state reply messages = some (q, summary) →
        (machine R).step r (.turn reply messages) = some r' →
          Same r'.account.chain.flatten (summarised messages) := by
  intro h
  have hc : ((digesting.completed initial (.text "s")
      [userMessage "go", summaryMessage "old", userMessage "on", userMessage "off"]).any
        fun p => !p.1.held && p.1.new.isEmpty) = true := by decide +kernel
  obtain ⟨⟨q, summary⟩, hc, hq⟩ := (Option.any_eq_true _ _).mp hc
  obtain ⟨hheld, hnew⟩ : q.held = false ∧ q.new = [] := by simpa using hq
  have hsame := h digesting digesting_noCollisions ⟨initial, [], []⟩ (.init rfl) (.text "s")
    [userMessage "go", summaryMessage "old", userMessage "on", userMessage "off"] q summary _ rfl hc (step_completed hc)
  have hchain : (Account.record ⟨[], []⟩ q).chain.flatten = [] := by simp [Account.record, hheld, hnew]
  rw [hchain] at hsame
  exact absurd hsame.length (by decide +kernel)

end Errand.Runner.Compaction

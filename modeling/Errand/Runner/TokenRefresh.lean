import Errand.Lib.Machine
import Mathlib.Data.List.Basic
import Mathlib.Logic.Function.Basic

/-
  Errand.Runner.TokenRefresh — `_refresh_google_workspace_token` and the commands that
  call it, any number of them at once.

  A caller waits at the lock and for the answer to its POST; everything in between is one
  step. `_execute_command_impl` reads the token variable before its subprocess runs and
  refreshes if the output shows that the token has expired; other callers pass any stale
  token, or none. The lock may go to any caller that waits for it.

  A wave is a period with a call in flight. Beside the state, `posts` has the stale tokens
  POSTed for in the current wave and `replaced` all tokens a refresh ever put out of place.

  Proved:
  - `step_inv`: a token that was POSTed for is replaced, remembered as failed, or still
    being POSTed for, where tokens are new and captured ones were there to capture.
  - `one_post_per_token`: a wave has one POST for each stale token at most, a caller whose
    token was replaced gets the current one, and no failure outlives its wave.
  - `a_token_that_comes_back`: a token the server hands out again is POSTed for twice.
  - `an_unset_variable`: while the variable is not set, so is one of two stale tokens.
-/

namespace Errand.Runner.TokenRefresh

open Errand.Lib

variable {ι : Type} [DecidableEq ι]

inductive Caller where
  | idle
  /-- The subprocess of `_execute_command_impl` runs, with the token captured before. -/
  | running (staleTokenAtAttempt : String)
  /-- At the lock. -/
  | waiting (staleToken : String)
  /-- The POST is under way. -/
  | posting (staleToken : String)
  | returned (token : Option String)
  deriving DecidableEq, Repr

/-- The answer to a POST: an exception of the client, another status than 200, no JSON
    object, the `access_token` of one, or what is no `Exception` or cannot be put in the
    environment, and is raised through. -/
inductive Outcome where
  | networkError
  | httpError
  | badJson
  | token (accessToken : String)
  | raised
  deriving DecidableEq, Repr

structure St (ι : Type) where
  /-- ERRAND_API_URL and ERRAND_API_KEY are set. -/
  configured : Bool
  /-- GOOGLE_WORKSPACE_CLI_TOKEN. -/
  env : String
  /-- Who holds `_google_token_refresh_lock`. -/
  lock : Option ι
  inflightCount : Int
  recentFailedStaleToken : Option String
  callers : ι → Caller
  posts : List String
  replaced : List String

def setCaller (s : St ι) (i : ι) (c : Caller) : St ι := { s with callers := Function.update s.callers i c }

/-- Up to the lock. -/
def enter (s : St ι) (i : ι) (staleToken : String) : St ι :=
  if s.configured then
    { setCaller s i (.waiting (if staleToken.isEmpty then s.env else staleToken)) with
      inflightCount := s.inflightCount + 1 }
  else setCaller s i (.returned none)

/-- A return from under the lock, through the `finally` block. -/
def finish (s : St ι) (i : ι) (token : Option String) : St ι :=
  let n := s.inflightCount - 1
  { s with
    callers := Function.update s.callers i (.returned token)
    lock := none
    inflightCount := n
    recentFailedStaleToken := if n = 0 then none else s.recentFailedStaleToken
    posts := if n = 0 then [] else s.posts }

/-- With the lock, up to the POST or the return. -/
def locked (s : St ι) (i : ι) (staleToken : String) : St ι :=
  if s.env ≠ "" ∧ s.env ≠ staleToken then finish s i (some s.env)
  else if s.recentFailedStaleToken = some staleToken then finish s i none
  else { setCaller s i (.posting staleToken) with lock := some i, posts := staleToken :: s.posts }

def answered (s : St ι) (i : ι) (staleToken : String) (o : Outcome) : St ι :=
  let failed := finish { s with recentFailedStaleToken := some staleToken } i none
  match o with
  | .token newToken =>
    if newToken.isEmpty then failed
    else
      finish { s with env := newToken, recentFailedStaleToken := none, replaced := staleToken :: s.replaced } i (some newToken)
  | .raised => finish s i none
  | _ => failed

inductive Event (ι : Type) where
  /-- `_execute_command_impl` starts its subprocess. -/
  | attempt (i : ι)
  /-- Its output shows an expired token. -/
  | expired (i : ι)
  /-- The helper is called from elsewhere. -/
  | call (i : ι) (staleToken : String)
  | acquire (i : ι)
  | answer (i : ι) (o : Outcome)
  /-- A command or a call is done. -/
  | leave (i : ι)

def machine (ι : Type) [DecidableEq ι] : Machine (St ι) (Event ι) where
  init s := ∃ configured env, s = ⟨configured, env, none, 0, none, fun _ => .idle, [], []⟩
  step s e :=
    match e with
    | .attempt i => if s.callers i = .idle then some (setCaller s i (.running s.env)) else none
    | .expired i =>
      match s.callers i with
      | .running staleToken => some (if staleToken.isEmpty then setCaller s i .idle else enter s i staleToken)
      | _ => none
    | .call i staleToken => if s.callers i = .idle then some (enter s i staleToken) else none
    | .acquire i =>
      match s.callers i with
      | .waiting staleToken => if s.lock.isNone then some (locked s i staleToken) else none
      | _ => none
    | .answer i o =>
      match s.callers i with
      | .posting staleToken => some (answered s i staleToken o)
      | _ => none
    | .leave i =>
      match s.callers i with
      | .running _ => some (setCaller s i .idle)
      | .returned _ => some (setCaller s i .idle)
      | _ => none

/-! ## Calls in flight -/

def Caller.live : Caller → Bool
  | .waiting _ => true
  | .posting _ => true
  | _ => false

/-- What a step does: a command begins or is over, the helper is entered, it gets the lock,
    or its POST is answered. -/
inductive Does (s : St ι) : Event ι → St ι → Prop where
  | command {e : Event ι} (i : ι) (c : Caller) : (s.callers i).live = false → c = .idle ∨ c = .running s.env →
      Does s e (setCaller s i c)
  | entered {e : Event ι} (i : ι) (t : String) : (s.callers i).live = false →
      e = .call i t ∨ s.callers i = .running t → Does s e (enter s i t)
  | acquired (i : ι) (t : String) : s.callers i = .waiting t → s.lock = none → Does s (.acquire i) (locked s i t)
  | answered (i : ι) (t : String) (o : Outcome) : s.callers i = .posting t →
      Does s (.answer i o) (TokenRefresh.answered s i t o)

theorem step_does {s s' : St ι} {e : Event ι} (hstep : (machine ι).step s e = some s') : Does s e s' := by
  cases e with
  | attempt i =>
    simp only [machine, Option.ite_none_right_eq_some, Option.some.injEq] at hstep
    obtain ⟨hi, rfl⟩ := hstep
    exact .command i _ (by rw [hi]; rfl) (.inr rfl)
  | expired i =>
    simp only [machine] at hstep
    split at hstep
    · rename_i t hi
      have hlive : (s.callers i).live = false := by rw [hi]; rfl
      cases hstep
      split
      · exact .command i _ hlive (.inl rfl)
      · exact .entered i t hlive (.inr hi)
    · cases hstep
  | call i t =>
    simp only [machine, Option.ite_none_right_eq_some, Option.some.injEq] at hstep
    obtain ⟨hi, rfl⟩ := hstep
    exact .entered i t (by rw [hi]; rfl) (.inl rfl)
  | acquire i =>
    simp only [machine] at hstep
    split at hstep
    · rename_i t hi
      split at hstep
      · rename_i hfree
        cases hstep
        exact .acquired i t hi (Option.isNone_iff_eq_none.mp hfree)
      · cases hstep
    · cases hstep
  | answer i o =>
    simp only [machine] at hstep
    split at hstep
    · rename_i t hi
      cases hstep
      exact .answered i t o hi
    · cases hstep
  | leave i =>
    simp only [machine] at hstep
    split at hstep
    · rename_i hi
      cases hstep
      exact .command i _ (by rw [hi]; rfl) (.inl rfl)
    · rename_i hi
      cases hstep
      exact .command i _ (by rw [hi]; rfl) (.inl rfl)
    · cases hstep

omit [DecidableEq ι] in
theorem not_posting {s : St ι} {i : ι} (hlive : (s.callers i).live = false) : ∀ t, s.callers i ≠ .posting t := by
  intro t ht
  rw [ht] at hlive
  cases hlive

/-- The count is that of the callers in flight, and the one under way with a POST has the lock. -/
structure Counted (s : St ι) : Prop where
  live : ∃ l : List ι, l.Nodup ∧ (∀ i, i ∈ l ↔ (s.callers i).live = true) ∧ s.inflightCount = l.length
  lock : ∀ i, s.lock = some i ↔ ∃ t, s.callers i = .posting t

theorem live_update {callers : ι → Caller} {l : List ι} (hl : ∀ i, i ∈ l ↔ (callers i).live = true) {i : ι} {c : Caller}
    (h : c.live = (callers i).live) : ∀ j, j ∈ l ↔ (Function.update callers i c j).live = true := by
  intro j
  by_cases hj : j = i
  · subst hj
    rw [Function.update_self, h, hl]
  · rw [Function.update_of_ne hj, hl]

theorem counted_setCaller {s : St ι} (h : Counted s) {i : ι} {c : Caller} (hi : (s.callers i).live = false)
    (hc : c.live = false) : Counted (setCaller s i c) := by
  obtain ⟨⟨l, hnodup, hl, hcount⟩, hlock⟩ := h
  refine ⟨⟨l, hnodup, live_update hl (hc.trans hi.symm), hcount⟩, ?_⟩
  intro j
  show s.lock = some j ↔ ∃ t, Function.update s.callers i c j = .posting t
  by_cases hj : j = i
  · subst hj
    rw [Function.update_self, hlock]
    constructor
    · intro hsome
      rcases hsome with ⟨t, ht⟩
      rw [ht] at hi
      cases hi
    · intro hsome
      rcases hsome with ⟨t, rfl⟩
      cases hc
  · rw [Function.update_of_ne hj, hlock]

theorem counted_enter {s : St ι} (h : Counted s) {i : ι} (hi : (s.callers i).live = false) (staleToken : String) :
    Counted (enter s i staleToken) := by
  unfold enter
  split
  · obtain ⟨⟨l, hnodup, hl, hcount⟩, hlock⟩ := h
    have hnot : i ∉ l := by
      rw [hl, hi]
      decide
    refine ⟨⟨i :: l, List.nodup_cons.mpr ⟨hnot, hnodup⟩, ?_, ?_⟩, ?_⟩
    · intro j
      show j ∈ i :: l ↔ (Function.update s.callers i _ j).live = true
      by_cases hj : j = i
      · subst hj
        simp [Caller.live]
      · rw [Function.update_of_ne hj, List.mem_cons, or_iff_right hj, hl]
    · show s.inflightCount + 1 = _
      rw [hcount, List.length_cons]
      omega
    · intro j
      show s.lock = some j ↔ ∃ t, Function.update s.callers i _ j = .posting t
      by_cases hj : j = i
      · subst hj
        rw [Function.update_self, hlock]
        refine iff_of_false ?_ (by rintro ⟨t, ht⟩; cases ht)
        intro hsome
        rcases hsome with ⟨t, ht⟩
        rw [ht] at hi
        cases hi
      · rw [Function.update_of_ne hj, hlock]
  · exact counted_setCaller h hi rfl

/-- Nobody else has the lock. -/
def Alone (s : St ι) (i : ι) : Prop := ∀ j t, s.callers j = .posting t → j = i

theorem counted_finish {s : St ι} (h : Counted s) {i : ι} (hi : (s.callers i).live = true) (halone : Alone s i)
    (token : Option String) : Counted (finish s i token) := by
  obtain ⟨⟨l, hnodup, hl, hcount⟩, -⟩ := h
  have hmem : i ∈ l := (hl i).mpr hi
  refine ⟨⟨l.erase i, hnodup.erase i, ?_, ?_⟩, ?_⟩
  · intro j
    show j ∈ l.erase i ↔ (Function.update s.callers i _ j).live = true
    rw [hnodup.mem_erase_iff]
    by_cases hj : j = i
    · subst hj
      simp [Caller.live]
    · rw [Function.update_of_ne hj, hl, and_iff_right hj]
  · have hpos : 0 < l.length := List.length_pos_of_mem hmem
    show s.inflightCount - 1 = _
    rw [hcount, List.length_erase_of_mem hmem]
    omega
  · intro j
    show none = some j ↔ ∃ t, Function.update s.callers i _ j = .posting t
    refine iff_of_false (by intro h; cases h) ?_
    intro hsome
    rcases hsome with ⟨t, ht⟩
    by_cases hj : j = i
    · subst hj
      rw [Function.update_self] at ht
      cases ht
    · rw [Function.update_of_ne hj] at ht
      exact hj (halone j t ht)

omit [DecidableEq ι] in
theorem alone_of_unlocked {s : St ι} (h : Counted s) (hfree : s.lock = none) (i : ι) : Alone s i := by
  intro j t ht
  have hheld := (h.lock j).mpr ⟨t, ht⟩
  rw [hfree] at hheld
  cases hheld

omit [DecidableEq ι] in
theorem alone_of_posting {s : St ι} (h : Counted s) {i : ι} {t : String} (hi : s.callers i = .posting t) : Alone s i := by
  intro j u hu
  have hj := (h.lock j).mpr ⟨u, hu⟩
  rw [(h.lock i).mpr ⟨t, hi⟩] at hj
  exact (Option.some.inj hj).symm

theorem counted_locked {s : St ι} (h : Counted s) {i : ι} {t : String} (hi : s.callers i = .waiting t)
    (hfree : s.lock = none) : Counted (locked s i t) := by
  have halone := alone_of_unlocked h hfree i
  have hlive : (s.callers i).live = true := by rw [hi]; rfl
  unfold locked
  split
  · exact counted_finish h hlive halone _
  split
  · exact counted_finish h hlive halone _
  · obtain ⟨⟨l, hnodup, hl, hcount⟩, -⟩ := h
    refine ⟨⟨l, hnodup, live_update hl hlive.symm, hcount⟩, ?_⟩
    intro j
    show some i = some j ↔ ∃ u, Function.update s.callers i _ j = .posting u
    by_cases hj : j = i
    · subst hj
      simp
    · rw [Function.update_of_ne hj]
      refine iff_of_false (fun h => hj (Option.some.inj h).symm) ?_
      intro hsome
      rcases hsome with ⟨u, hu⟩
      exact hj (halone j u hu)

theorem counted_answered {s : St ι} (h : Counted s) {i : ι} {t : String} (hi : s.callers i = .posting t) (o : Outcome) :
    Counted (answered s i t o) := by
  have halone := alone_of_posting h hi
  have hlive : (s.callers i).live = true := by rw [hi]; rfl
  -- none of the answers touches the callers or the count before it returns
  have hany : ∀ (env : String) (failed : Option String) (replaced : List String) (token : Option String),
      Counted (finish { s with env := env, recentFailedStaleToken := failed, replaced := replaced } i token) := by
    intro env failed replaced token
    have hs : Counted { s with env := env, recentFailedStaleToken := failed, replaced := replaced } := ⟨h.live, h.lock⟩
    exact counted_finish hs hlive halone token
  cases o with
  | token newToken =>
    simp only [answered]
    split
    · exact hany _ _ _ _
    · exact hany _ _ _ _
  | _ => exact hany _ _ _ _

omit [DecidableEq ι] in
theorem start_counted (configured : Bool) (env : String) :
    Counted (⟨configured, env, none, 0, none, fun _ : ι => .idle, [], []⟩ : St ι) := by
  refine ⟨⟨[], List.nodup_nil, ?_, rfl⟩, ?_⟩
  · intro i
    simp [Caller.live]
  · intro i
    simp

theorem step_counted {s s' : St ι} {e : Event ι} (hs : Counted s) (hstep : (machine ι).step s e = some s') :
    Counted s' := by
  cases step_does hstep with
  | command i c hlive hc => exact counted_setCaller hs hlive (by rcases hc with rfl | rfl <;> rfl)
  | entered i t hlive _ => exact counted_enter hs hlive t
  | acquired i t hi hfree => exact counted_locked hs hi hfree
  | answered i t o hi => exact counted_answered hs hi o

/-! ## Tokens -/

/-- A captured token is passed on while the variable is set, and a token that comes back
    is none that was replaced before. -/
def Fresh (s : St ι) : Event ι → Prop
  | .call _ staleToken => staleToken ≠ "" → s.env ≠ ""
  | .answer i (.token newToken) => ∀ staleToken, s.callers i = .posting staleToken → newToken ∉ staleToken :: s.replaced
  | .answer _ .raised => False
  | _ => True

/-- What a caller knows of the variable. -/
def Knows (env : String) : Caller → Prop
  | .running t => env = "" → t = ""
  | .waiting t => env = "" → t = ""
  | .posting t => t = env
  | _ => True

structure Inv (s : St ι) : Prop where
  knows : ∀ i, Knows s.env (s.callers i)
  fresh : s.env ∉ s.replaced
  failed : ∀ t, s.recentFailedStaleToken = some t → t = s.env
  nodup : s.posts.Nodup
  accounted : ∀ p ∈ s.posts, p ∈ s.replaced ∨ s.recentFailedStaleToken = some p ∨ ∃ i, s.callers i = .posting p
  unset : s.env = "" → s.replaced = []
  quiet : s.inflightCount = 0 → s.recentFailedStaleToken = none

/-- What holds of the others when the call of `i` returns. -/
structure Returning (s : St ι) (i : ι) : Prop where
  knows : ∀ j, j ≠ i → Knows s.env (s.callers j)
  fresh : s.env ∉ s.replaced
  failed : ∀ t, s.recentFailedStaleToken = some t → t = s.env
  nodup : s.posts.Nodup
  accounted : ∀ p ∈ s.posts, p ∈ s.replaced ∨ s.recentFailedStaleToken = some p
  unset : s.env = "" → s.replaced = []

theorem finish_inv {s : St ι} {i : ι} (h : Returning s i) (token : Option String) : Inv (finish s i token) := by
  have hknows : ∀ j, Knows s.env (Function.update s.callers i (.returned token) j) := by
    intro j
    by_cases hj : j = i
    · subst hj
      rw [Function.update_self]
      trivial
    · rw [Function.update_of_ne hj]
      exact h.knows j hj
  by_cases hn : s.inflightCount - 1 = 0
  · refine ⟨hknows, h.fresh, ?_, ?_, ?_, h.unset, ?_⟩ <;> simp [finish, hn]
  · refine ⟨hknows, h.fresh, ?_, ?_, ?_, h.unset, ?_⟩
    · simpa [finish, hn] using h.failed
    · simpa [finish, hn] using h.nodup
    · simp only [finish, hn, if_false]
      intro p hp
      rcases h.accounted p hp with hr | hf
      · exact .inl hr
      · exact .inr (.inl hf)
    · intro hzero
      exact absurd hzero hn

omit [DecidableEq ι] in
theorem returning_of_alone {s : St ι} (h : Inv s) {i : ι} (halone : Alone s i) (hi : ∀ t, s.callers i ≠ .posting t) :
    Returning s i := by
  refine ⟨fun j _ => h.knows j, h.fresh, h.failed, h.nodup, ?_, h.unset⟩
  intro p hp
  rcases h.accounted p hp with hr | hf | ⟨j, hj⟩
  · exact .inl hr
  · exact .inr hf
  · have hji := halone j p hj
    subst hji
    exact absurd hj (hi p)

/-- A caller with no POST under way changes to another such. -/
theorem setCaller_inv {s : St ι} (h : Inv s) {i : ι} {c : Caller} (hi : ∀ t, s.callers i ≠ .posting t)
    (hc : Knows s.env c) : Inv (setCaller s i c) := by
  refine ⟨?_, h.fresh, h.failed, h.nodup, ?_, h.unset, h.quiet⟩
  · intro j
    show Knows s.env (Function.update s.callers i c j)
    by_cases hj : j = i
    · subst hj
      rwa [Function.update_self]
    · rw [Function.update_of_ne hj]
      exact h.knows j
  · intro p hp
    rcases h.accounted p hp with hr | hf | ⟨j, hj⟩
    · exact .inl hr
    · exact .inr (.inl hf)
    · refine .inr (.inr ⟨j, ?_⟩)
      have hji : j ≠ i := by
        intro heq
        subst heq
        exact hi p hj
      show Function.update s.callers i c j = .posting p
      rw [Function.update_of_ne hji, hj]

theorem enter_inv {s : St ι} (h : Inv s) (hcount : Counted s) {i : ι} (hi : ∀ t, s.callers i ≠ .posting t) {t : String}
    (ht : s.env = "" → t = "") : Inv (enter s i t) := by
  unfold enter
  split
  · have hc : Knows s.env (.waiting (if t.isEmpty then s.env else t)) := by
      intro henv
      split
      · exact henv
      · exact ht henv
    have hset := setCaller_inv h hi hc
    refine ⟨hset.knows, hset.fresh, hset.failed, hset.nodup, hset.accounted, hset.unset, ?_⟩
    intro hzero
    obtain ⟨l, -, -, hl⟩ := hcount.live
    have hcall : s.inflightCount + 1 = 0 := hzero
    omega
  · exact setCaller_inv h hi trivial

theorem locked_inv {s : St ι} (h : Inv s) (hcount : Counted s) {i : ι} {t : String} (hi : s.callers i = .waiting t)
    (hfree : s.lock = none) : Inv (locked s i t) := by
  have halone := alone_of_unlocked hcount hfree i
  have hno : ∀ u, s.callers i ≠ .posting u := by
    intro u hu
    rw [hi] at hu
    cases hu
  have hreturning := returning_of_alone h halone hno
  unfold locked
  split
  · exact finish_inv hreturning _
  rename_i hcurrent
  split
  · exact finish_inv hreturning _
  rename_i hfailed
  -- the token is the current one, or neither is set
  have htoken : t = s.env := by
    have hknows := h.knows i
    rw [hi] at hknows
    by_cases henv : s.env = ""
    · rw [henv]
      exact hknows henv
    · by_contra hne
      exact hcurrent ⟨henv, fun heq => hne heq.symm⟩
  have hset : ∀ j, Knows s.env (Function.update s.callers i (.posting t) j) := by
    intro j
    by_cases hj : j = i
    · subst hj
      rw [Function.update_self]
      exact htoken
    · rw [Function.update_of_ne hj]
      exact h.knows j
  refine ⟨hset, h.fresh, h.failed, ?_, ?_, h.unset, h.quiet⟩
  · refine List.nodup_cons.mpr ⟨?_, h.nodup⟩
    intro hmem
    rcases hreturning.accounted t hmem with hr | hf
    · rw [htoken] at hr
      exact h.fresh hr
    · exact hfailed hf
  · intro p hp
    rcases List.mem_cons.mp hp with rfl | hp
    · exact .inr (.inr ⟨i, Function.update_self ..⟩)
    · rcases hreturning.accounted p hp with hr | hf
      · exact .inl hr
      · exact .inr (.inl hf)

theorem answered_inv {s : St ι} (h : Inv s) (hcount : Counted s) {i : ι} {t : String} (hi : s.callers i = .posting t)
    {o : Outcome} (hfresh : Fresh s (.answer i o)) : Inv (answered s i t o) := by
  have halone := alone_of_posting hcount hi
  have htoken : t = s.env := by
    have hknows := h.knows i
    rwa [hi] at hknows
  -- what was POSTed for is replaced, or this token
  have hposts : ∀ p ∈ s.posts, p ∈ s.replaced ∨ p = t := by
    intro p hp
    rcases h.accounted p hp with hr | hf | ⟨j, hj⟩
    · exact .inl hr
    · exact .inr ((h.failed p hf).trans htoken.symm)
    · have hji := halone j p hj
      subst hji
      rw [hi] at hj
      cases hj
      exact .inr rfl
  have hfailure : Inv (finish { s with recentFailedStaleToken := some t } i none) := by
    apply finish_inv
    refine ⟨fun j _ => h.knows j, h.fresh, ?_, h.nodup, ?_, h.unset⟩
    · intro u hu
      cases hu
      exact htoken
    · intro p hp
      rcases hposts p hp with hr | rfl
      · exact .inl hr
      · exact .inr rfl
  cases o with
  | token newToken =>
    simp only [answered]
    split
    · exact hfailure
    · rename_i hne
      have hne : newToken ≠ "" := by simpa using hne
      have hnew := hfresh t hi
      apply finish_inv
      refine ⟨?_, hnew, nofun, h.nodup, ?_, fun henv => absurd henv hne⟩
      · intro j hj
        show Knows newToken (s.callers j)
        cases hc : s.callers j with
        | posting u => exact absurd (halone j u hc) hj
        | idle => trivial
        | returned u => trivial
        | running u => exact fun henv => absurd henv hne
        | waiting u => exact fun henv => absurd henv hne
      · intro p hp
        rcases hposts p hp with hr | rfl
        · exact .inl (List.mem_cons_of_mem _ hr)
        · exact .inl (List.mem_cons_self ..)
  | raised => exact absurd hfresh id
  | networkError => exact hfailure
  | httpError => exact hfailure
  | badJson => exact hfailure

theorem step_inv {s s' : St ι} {e : Event ι} (h : Inv s) (hcount : Counted s) (hfresh : Fresh s e)
    (hstep : (machine ι).step s e = some s') : Inv s' := by
  cases step_does hstep with
  | command i c hlive hc =>
    refine setCaller_inv h (not_posting hlive) ?_
    rcases hc with rfl | rfl
    · trivial
    · exact id
  | entered i t hlive hwhence =>
    refine enter_inv h hcount (not_posting hlive) ?_
    rcases hwhence with rfl | hi
    · exact fun henv => by_contra fun ht => hfresh ht henv
    · have hknows := h.knows i
      rwa [hi] at hknows
  | acquired i t hi hfree => exact locked_inv h hcount hi hfree
  | answered i t o hi => exact answered_inv h hcount hi hfresh

theorem inv {s : St ι} (h : (machine ι).ReachIf Fresh s) : Inv s ∧ Counted s := by
  refine Machine.ReachIf.inv (P := fun s => Inv s ∧ Counted s) ?_ ?_ h
  · intro s hinit
    rcases hinit with ⟨configured, env, rfl⟩
    refine ⟨⟨fun i => trivial, ?_, nofun, List.nodup_nil, nofun, fun _ => rfl, fun _ => rfl⟩, start_counted configured env⟩
    exact List.not_mem_nil
  · intro s e s' hs hfresh hstep
    exact ⟨step_inv hs.1 hs.2 hfresh hstep, step_counted hs.2 hstep⟩

/-- A caller whose token was replaced gets the current one, in the step that takes the lock. -/
theorem reuses {s s' : St ι} (h : Inv s) {i : ι} {t : String} (hi : s.callers i = .waiting t) (ht : t ∈ s.replaced)
    (hstep : (machine ι).step s (.acquire i) = some s') : s'.callers i = .returned (some s.env) ∧ s'.env = s.env := by
  have hset : s.env ≠ "" := by
    intro henv
    rw [h.unset henv] at ht
    cases ht
  have hother : s.env ≠ t := by
    intro heq
    rw [← heq] at ht
    exact h.fresh ht
  simp only [machine, hi] at hstep
  split at hstep
  · cases hstep
    rw [locked, if_pos ⟨hset, hother⟩]
    exact ⟨Function.update_self .., rfl⟩
  · cases hstep

omit [DecidableEq ι] in
theorem unlocked_of_quiet {s : St ι} (h : Counted s) (hquiet : s.inflightCount = 0) : s.lock = none := by
  obtain ⟨⟨l, -, hl, hcount⟩, hlock⟩ := h
  have hnil : l = [] := List.eq_nil_of_length_eq_zero (by omega)
  rw [Option.eq_none_iff_forall_ne_some]
  intro i hi
  obtain ⟨t, ht⟩ := (hlock i).mp hi
  have hmem := (hl i).mpr (by rw [ht]; rfl)
  rw [hnil] at hmem
  cases hmem

/-- With nothing remembered, a caller with the current token POSTs. -/
theorem posts_anew {s : St ι} (hfree : s.lock = none) (hfailed : s.recentFailedStaleToken = none)
    (hconf : s.configured = true) {i : ι} (hidle : s.callers i = .idle) :
    ∃ s', (machine ι).exec s [.call i s.env, .acquire i] = some s' ∧ s'.callers i = .posting s.env := by
  have hcall : (machine ι).step s (.call i s.env) = some (enter s i s.env) := if_pos hidle
  have htoken : (if s.env.isEmpty then s.env else s.env) = s.env := ite_self _
  have hcaller : (enter s i s.env).callers i = .waiting s.env := by
    rw [enter, if_pos hconf, htoken]
    exact Function.update_self ..
  have hrest : (enter s i s.env).lock = none ∧ (enter s i s.env).recentFailedStaleToken = none ∧
      (enter s i s.env).env = s.env := by
    rw [enter, if_pos hconf]
    exact ⟨hfree, hfailed, rfl⟩
  obtain ⟨hlock, hnone, henv⟩ := hrest
  have hacquire : (machine ι).step (enter s i s.env) (.acquire i) = some (locked (enter s i s.env) i s.env) := by
    simp only [machine, hcaller, hlock, Option.isNone_none, if_true]
  refine ⟨_, by rw [Machine.exec_cons _ hcall, Machine.exec_cons _ hacquire]; rfl, ?_⟩
  rw [locked, if_neg (fun h => h.2 henv), if_neg (by rw [hnone]; exact nofun)]
  exact Function.update_self ..

/-- Any callers, in any order of their steps: no stale token is POSTed for twice in a
    wave; a caller whose token was replaced returns the current one without a POST; with
    no call in flight no failure is remembered, and the next caller POSTs. -/
theorem one_post_per_token {s : St ι} (h : (machine ι).ReachIf Fresh s) :
    s.posts.Nodup ∧
      (∀ i t s', s.callers i = .waiting t → t ∈ s.replaced → (machine ι).step s (.acquire i) = some s' →
        s'.callers i = .returned (some s.env) ∧ s'.env = s.env) ∧
      (s.inflightCount = 0 → s.recentFailedStaleToken = none ∧
        ∀ i, s.configured = true → s.callers i = .idle →
          ∃ s', (machine ι).exec s [.call i s.env, .acquire i] = some s' ∧ s'.callers i = .posting s.env) := by
  obtain ⟨hinv, hcounted⟩ := inv h
  refine ⟨hinv.nodup, fun i t s' hi ht hstep => reuses hinv hi ht hstep, ?_⟩
  intro hquiet
  have hfailed := hinv.quiet hquiet
  exact ⟨hfailed, fun i hconf hidle => posts_anew (unlocked_of_quiet hcounted hquiet) hfailed hconf hidle⟩

/-! ## Runs -/

def start (env : String) : St (Fin 3) := ⟨true, env, none, 0, none, fun _ => .idle, [], []⟩

/-- Two commands see the same token expire. -/
theorem two_commands_share_a_refresh : ∃ s s' : St (Fin 3), (machine (Fin 3)).ReachIf Fresh s ∧
    s'.callers 1 = .returned (some "new") ∧ (machine (Fin 3)).step s (.acquire 1) = some s' := by
  have h0 : (machine (Fin 3)).ReachIf Fresh (start "old") := .init ⟨true, "old", rfl⟩
  have h1 := h0.step (Event.attempt 0) trivial rfl
  have h2 := h1.step (Event.attempt 1) trivial rfl
  have h3 := h2.step (Event.expired 0) trivial rfl
  have h4 := h3.step (Event.expired 1) trivial rfl
  have h5 := h4.step (Event.acquire 0) trivial rfl
  have h6 := h5.step (Event.answer 0 (.token "new")) (by intro t ht; cases ht; decide) rfl
  have hreused := (one_post_per_token h6).2.1 1 "old" _ rfl (by decide) rfl
  exact ⟨_, _, h6, hreused.1, rfl⟩

/-- The outcomes of a POST that are an answer, with a token that is another one. -/
def Differs (s : St ι) : Event ι → Prop
  | .answer i (.token newToken) => ∀ staleToken, s.callers i = .posting staleToken → newToken ≠ staleToken
  | .answer _ .raised => False
  | _ => True

/-- A token that was replaced comes back while a command that saw it waits. -/
theorem a_token_that_comes_back :
    ¬ ∀ s : St (Fin 3), (machine (Fin 3)).ReachIf Differs s → s.posts.Nodup := by
  intro h
  have h0 : (machine (Fin 3)).ReachIf Differs (start "old") := .init ⟨true, "old", rfl⟩
  have h1 := h0.step (Event.attempt 0) trivial rfl
  have h2 := h1.step (Event.attempt 2) trivial rfl
  have h3 := h2.step (Event.expired 0) trivial rfl
  have h4 := h3.step (Event.expired 2) trivial rfl
  have h5 := h4.step (Event.acquire 0) trivial rfl
  have h6 := h5.step (Event.answer 0 (.token "new")) (by intro t ht; cases ht; decide) rfl
  have h7 := h6.step (Event.attempt 1) trivial rfl
  have h8 := h7.step (Event.expired 1) trivial rfl
  have h9 := h8.step (Event.acquire 1) trivial rfl
  have h10 := h9.step (Event.answer 1 (.token "old")) (by intro t ht; cases ht; decide) rfl
  have h11 := h10.step (Event.acquire 2) trivial rfl
  exact absurd (h _ h11) (by decide)

/-- Two stale tokens share the one place for a failure while the variable is not set, with
    no refresh that succeeds. -/
theorem an_unset_variable :
    ¬ ∀ s : St (Fin 3), (machine (Fin 3)).ReachIf (fun _ e => ∀ i o, e = .answer i o → o = .networkError) s →
      s.posts.Nodup := by
  intro h
  have h0 : (machine (Fin 3)).ReachIf (fun _ e => ∀ i o, e = .answer i o → o = .networkError) (start "") :=
    .init ⟨true, "", rfl⟩
  have h1 := h0.step (Event.call 0 "a") nofun rfl
  have h2 := h1.step (Event.call 1 "b") nofun rfl
  have h3 := h2.step (Event.call 2 "a") nofun rfl
  have h4 := h3.step (Event.acquire 0) nofun rfl
  have h5 := h4.step (Event.answer 0 .networkError) (by intro i o he; cases he; rfl) rfl
  have h6 := h5.step (Event.acquire 1) nofun rfl
  have h7 := h6.step (Event.answer 1 .networkError) (by intro i o he; cases he; rfl) rfl
  have h8 := h7.step (Event.acquire 2) nofun rfl
  exact absurd (h _ h8) (by decide)

end Errand.Runner.TokenRefresh

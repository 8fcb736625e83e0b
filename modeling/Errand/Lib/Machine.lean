/-
  Errand.Lib.Machine — guarded machines and their runs.

  A machine answers an event in a state with the next state, or with nothing when the
  event is not enabled there; whatever is left open (an interleaving, a reply from
  outside, a clock) is in the event. `ReachIf C` is reachability by steps that each meet
  a condition on the event and the state before it, `Reach` the same without one.

  Rules: an invariant of the steps holds of every state reached (`ReachIf.inv`), of every
  state a run of allowed events ends in (`exec_inv`), and a run from a reachable state
  ends in one (`Reach.exec`, `ReachIf.exec`) and steps from such (`ReachIf.trace`). A
  potential that pays for the steps that cost bounds how often a run does
  (`countP_trace_le`). A property that a step keeps exactly if it meets a condition is kept
  by exactly the runs that meet it throughout (`exec_iff_meets`, `exec_iff_trace`), and one
  that other steps may bring back holds all along exactly the same runs (`throughout_iff`;
  `throughout_iff_meets` where its invariant is stronger).
-/

namespace Errand.Lib

universe u v

structure Machine (σ : Type u) (ε : Type v) where
  init : σ → Prop
  step : σ → ε → Option σ

namespace Machine

variable {σ : Type u} {ε : Type v} (M : Machine σ ε)

def exec (s : σ) : List ε → Option σ
  | [] => some s
  | e :: es => (M.step s e).bind fun s' => exec s' es

/-- The steps a run makes, each with the state before it. -/
def trace (s : σ) : List ε → List (σ × ε)
  | [] => []
  | e :: es =>
    match M.step s e with
    | some s' => (s, e) :: trace s' es
    | none => []

theorem exec_bind (s : σ) (e : ε) (es : List ε) : M.exec s (e :: es) = (M.step s e).bind fun s' => M.exec s' es := rfl

theorem trace_match (s : σ) (e : ε) (es : List ε) :
    M.trace s (e :: es) =
      match M.step s e with
      | some s' => (s, e) :: M.trace s' es
      | none => [] := rfl

theorem trace_cons {s s' : σ} {e : ε} (h : M.step s e = some s') (es : List ε) :
    M.trace s (e :: es) = (s, e) :: M.trace s' es := by
  rw [trace_match, h]

theorem trace_step {s s' : σ} {e : ε} {es : List ε} (h : (s', e) ∈ M.trace s es) : (M.step s' e).isSome = true := by
  induction es generalizing s with
  | nil => cases h
  | cons f es ih =>
    cases ht : M.step s f with
    | none =>
      rw [trace_match, ht] at h
      cases h
    | some t =>
      rw [trace_cons M ht] at h
      rcases List.mem_cons.mp h with h | h
      · cases h
        rw [ht]
        rfl
      · exact ih h

/-- The steps of a run are made by its events. -/
theorem trace_event {s : σ} {p : σ × ε} {es : List ε} (h : p ∈ M.trace s es) : p.2 ∈ es := by
  induction es generalizing s with
  | nil => cases h
  | cons f es ih =>
    cases ht : M.step s f with
    | none =>
      rw [trace_match, ht] at h
      cases h
    | some t =>
      rw [trace_cons M ht] at h
      rcases List.mem_cons.mp h with rfl | h
      · exact List.mem_cons_self ..
      · exact List.mem_cons_of_mem _ (ih h)

/-- A step that changes nothing can be made any number of times. -/
theorem trace_loop {s : σ} {e : ε} (h : M.step s e = some s) (n : Nat) :
    M.trace s (List.replicate n e) = List.replicate n (s, e) := by
  induction n with
  | zero => rfl
  | succ n ih => rw [List.replicate_succ, List.replicate_succ, trace_cons M h, ih]

theorem exec_cons {s s' : σ} {e : ε} (h : M.step s e = some s') (es : List ε) :
    M.exec s (e :: es) = M.exec s' es := by simp [exec_bind, h]

theorem exec_append (s : σ) (es fs : List ε) : M.exec s (es ++ fs) = (M.exec s es).bind fun t => M.exec t fs := by
  induction es generalizing s with
  | nil => rfl
  | cons e es ih =>
    rw [List.cons_append, exec_bind, exec_bind, Option.bind_assoc]
    exact congrArg (M.step s e).bind (funext fun t => ih t)

/-- A run of one more event ends with its step. -/
theorem exec_concat {s s' : σ} {es : List ε} {e : ε} (h : M.exec s (es ++ [e]) = some s') :
    ∃ t, M.exec s es = some t ∧ M.step t e = some s' := by
  rw [exec_append] at h
  obtain ⟨t, ht, h⟩ := Option.bind_eq_some_iff.mp h
  obtain ⟨u, hu, h⟩ := Option.bind_eq_some_iff.mp h
  cases h
  exact ⟨t, ht, hu⟩

/-- The states reached from an initial one by steps that each meet `C`. -/
inductive ReachIf (C : σ → ε → Prop) : σ → Prop
  | init {s : σ} : M.init s → ReachIf C s
  | step {s s' : σ} (e : ε) : ReachIf C s → C s e → M.step s e = some s' → ReachIf C s'

def Reach : σ → Prop := M.ReachIf fun _ _ => True

variable {M}

theorem Reach.init {s : σ} (h : M.init s) : M.Reach s := ReachIf.init h

theorem Reach.step {s s' : σ} (e : ε) (h : M.Reach s) (hs : M.step s e = some s') : M.Reach s' :=
  ReachIf.step e h trivial hs

/-- What holds at first and is kept by every step meeting `C` holds in every state
    reached by such steps. -/
theorem ReachIf.inv {C : σ → ε → Prop} {P : σ → Prop} (h0 : ∀ s, M.init s → P s)
    (hs : ∀ s e s', P s → C s e → M.step s e = some s' → P s') {s : σ} (h : M.ReachIf C s) : P s := by
  induction h with
  | init hi => exact h0 _ hi
  | step e _ hc hst ih => exact hs _ e _ ih hc hst

theorem Reach.inv {P : σ → Prop} (h0 : ∀ s, M.init s → P s)
    (hs : ∀ s e s', P s → M.step s e = some s' → P s') {s : σ} (h : M.Reach s) : P s :=
  ReachIf.inv h0 (fun s e s' hp _ hst => hs s e s' hp hst) h

theorem Reach.exec {s s' : σ} {es : List ε} (h : M.Reach s) (he : M.exec s es = some s') : M.Reach s' := by
  induction es generalizing s with
  | nil => cases he; exact h
  | cons e es ih =>
    obtain ⟨t, ht, he⟩ := Option.bind_eq_some_iff.mp he
    exact ih (h.step e ht) he

/-- A run whose steps meet `C` ends in a state such steps reach. -/
theorem ReachIf.exec {C : σ → ε → Prop} {s s' : σ} {es : List ε} (h : M.ReachIf C s)
    (hc : ∀ p ∈ M.trace s es, C p.1 p.2) (he : M.exec s es = some s') : M.ReachIf C s' := by
  induction es generalizing s with
  | nil =>
    cases he
    exact h
  | cons e es ih =>
    obtain ⟨t, ht, he⟩ := Option.bind_eq_some_iff.mp he
    rw [trace_cons M ht, List.forall_mem_cons] at hc
    exact ih (.step e h hc.1 ht) hc.2 he

/-- Every state such a run steps from is one such steps reach. -/
theorem ReachIf.trace {C : σ → ε → Prop} {s t : σ} {e : ε} {es : List ε} (h : M.ReachIf C s)
    (hc : ∀ p ∈ M.trace s es, C p.1 p.2) (hmem : (t, e) ∈ M.trace s es) : M.ReachIf C t := by
  induction es generalizing s with
  | nil => cases hmem
  | cons f es ih =>
    cases hf : M.step s f with
    | none =>
      rw [trace_match, hf] at hmem
      cases hmem
    | some u =>
      rw [trace_cons M hf] at hc hmem
      rw [List.forall_mem_cons] at hc
      rcases List.mem_cons.mp hmem with heq | hmem
      · cases heq
        exact h
      · exact ih (.step f h hc.1 hf) hc.2 hmem

/-- What the events of `A` keep, a run of such events keeps. -/
theorem exec_inv {A : ε → Prop} {P : σ → Prop} (hs : ∀ s e s', P s → A e → M.step s e = some s' → P s')
    {s s' : σ} {es : List ε} (hp : P s) (ha : ∀ e ∈ es, A e) (he : M.exec s es = some s') : P s' := by
  induction es generalizing s with
  | nil => cases he; exact hp
  | cons e es ih =>
    obtain ⟨t, ht, he⟩ := Option.bind_eq_some_iff.mp he
    exact ih (hs s e t hp (ha e (List.mem_cons_self ..)) ht) (fun f hf => ha f (List.mem_cons_of_mem _ hf)) he

/-- What the steps keep holds of every state a run steps from. -/
theorem trace_inv {P : σ → Prop} (hs : ∀ s e s', P s → M.step s e = some s' → P s') {s s' : σ} {e : ε} {es : List ε}
    (hp : P s) (h : (s', e) ∈ M.trace s es) : P s' := by
  induction es generalizing s with
  | nil => cases h
  | cons f es ih =>
    cases ht : M.step s f with
    | none =>
      rw [trace_match, ht] at h
      cases h
    | some t =>
      rw [trace_cons M ht] at h
      rcases List.mem_cons.mp h with h | h
      · cases h
        exact hp
      · exact ih (hs s f t hp ht) h

/-- Where a potential pays for every step that costs, but for those that are allowed, it
    bounds how often a run costs. -/
theorem countP_trace_le {A : ε → Prop} {I : σ → Prop} (potential : σ → Nat) (cost allowance : σ → ε → Bool)
    (hs : ∀ s e s', I s → A e → M.step s e = some s' →
      I s' ∧ potential s' + (cost s e).toNat ≤ potential s + (allowance s e).toNat)
    {s : σ} (hi : I s) {es : List ε} (ha : ∀ p ∈ M.trace s es, A p.2) :
    (M.trace s es).countP (fun p => cost p.1 p.2) ≤
      potential s + (M.trace s es).countP fun p => allowance p.1 p.2 := by
  induction es generalizing s with
  | nil => exact Nat.zero_le _
  | cons e es ih =>
    cases ht : M.step s e with
    | none => simp [trace_match, ht]
    | some t =>
      rw [trace_cons M ht] at ha ⊢
      obtain ⟨hit, hpay⟩ := hs s e t hi (ha _ (List.mem_cons_self ..)) ht
      have hrest := ih hit fun p hp => ha p (List.mem_cons_of_mem _ hp)
      simp only [List.countP_cons]
      cases hc : cost s e <;> cases hb : allowance s e <;> rw [hc, hb] at hpay <;>
        simp only [Bool.toNat_true, Bool.toNat_false, if_true, Bool.false_eq_true, if_false] at hpay ⊢ <;> omega

/-- Every step of a run meets `C` in the state before it. -/
def Meets (M : Machine σ ε) (C : σ → ε → Prop) : σ → List ε → Prop
  | _, [] => True
  | s, e :: es => C s e ∧ ∀ s', M.step s e = some s' → Meets M C s' es

/-- Where a step keeps `P` exactly if it meets `C`, a run keeps `P` exactly if all its
    steps do. -/
theorem exec_iff_meets {C : σ → ε → Prop} {I P : σ → Prop}
    (hs : ∀ s e s', I s → M.step s e = some s' → I s' ∧ (P s' ↔ P s ∧ C s e))
    {s s' : σ} {es : List ε} (hi : I s) (he : M.exec s es = some s') : P s' ↔ P s ∧ Meets M C s es := by
  induction es generalizing s with
  | nil => cases he; simp [Meets]
  | cons e es ih =>
    obtain ⟨t, ht, he⟩ := Option.bind_eq_some_iff.mp he
    obtain ⟨hit, hpt⟩ := hs s e t hi ht
    have next : (∀ u, M.step s e = some u → Meets M C u es) ↔ Meets M C t es := by
      constructor
      · intro h; exact h t ht
      · intro h u hu
        rw [ht] at hu
        cases hu
        exact h
    rw [ih hit he, hpt, Meets, next, and_assoc]

/-- Where a step keeps `P` exactly if it meets `C`, a run of allowed events keeps `P` exactly
    if each step it makes does. -/
theorem exec_iff_trace {A : ε → Prop} {C : σ → ε → Prop} {I P : σ → Prop}
    (hs : ∀ s e s', I s → A e → M.step s e = some s' → I s' ∧ (P s' ↔ P s ∧ C s e))
    {s s' : σ} {es : List ε} (hi : I s) (ha : ∀ e ∈ es, A e) (he : M.exec s es = some s') :
    P s' ↔ P s ∧ ∀ p ∈ M.trace s es, C p.1 p.2 := by
  induction es generalizing s with
  | nil =>
    cases he
    exact (and_iff_left nofun).symm
  | cons e es ih =>
    obtain ⟨t, ht, he⟩ := Option.bind_eq_some_iff.mp he
    obtain ⟨hit, hpt⟩ := hs s e t hi (ha e (List.mem_cons_self ..)) ht
    rw [ih hit (fun f hf => ha f (List.mem_cons_of_mem _ hf)) he, hpt, trace_cons M ht, List.forall_mem_cons, and_assoc]

/-- Where a step from a state with `P` keeps it exactly if it meets `C`, `P` holds all along
    a run exactly if it does at the start and each step the run makes meets `C`. -/
theorem throughout_iff {A : ε → Prop} {C : σ → ε → Prop} {I P : σ → Prop}
    (hs : ∀ s e s', I s → A e → M.step s e = some s' → I s' ∧ (P s → (P s' ↔ C s e)))
    {s : σ} {es : List ε} (hi : I s) (ha : ∀ e ∈ es, A e) :
    (∀ n t, M.exec s (es.take n) = some t → P t) ↔ P s ∧ ∀ p ∈ M.trace s es, C p.1 p.2 := by
  induction es generalizing s with
  | nil =>
    have htake : ∀ n, M.exec s (([] : List ε).take n) = some s := fun n => by rw [List.take_nil]; rfl
    refine ⟨fun h => ⟨h 0 s rfl, nofun⟩, fun h n t ht => ?_⟩
    cases (htake n).symm.trans ht
    exact h.1
  | cons e es ih =>
    have hfirst : (∀ n t, M.exec s ((e :: es).take n) = some t → P t) ↔
        P s ∧ ∀ s', M.step s e = some s' → ∀ n t, M.exec s' (es.take n) = some t → P t := by
      constructor
      · intro h
        refine ⟨h 0 s rfl, ?_⟩
        intro s' hst n t ht
        exact h (n + 1) t ((M.exec_cons hst _).trans ht)
      · intro hinv n t ht
        rcases hinv with ⟨hp, h⟩
        cases n with
        | zero =>
          cases ht
          exact hp
        | succ n =>
          obtain ⟨s', hst, ht⟩ := Option.bind_eq_some_iff.mp ht
          exact h s' hst n t ht
    rw [hfirst]
    refine and_congr_right fun hp => ?_
    cases hst : M.step s e with
    | none => simp [trace_match, hst]
    | some s' =>
      obtain ⟨hi', hkeep⟩ := hs s e s' hi (ha e (List.mem_cons_self ..)) hst
      have hrest := ih hi' fun f hf => ha f (List.mem_cons_of_mem _ hf)
      rw [trace_cons M hst, List.forall_mem_cons, ← hkeep hp, ← hrest]
      simp

/-- Where the steps that meet `C` keep an invariant, and no other step keeps what the
    invariant is for, that holds all along exactly the runs whose steps each meet `C`. -/
theorem throughout_iff_meets {A : ε → Prop} {C : σ → ε → Prop} {I P : σ → Prop} (hp : ∀ s, I s → P s)
    (hs : ∀ s e s', I s → A e → M.step s e = some s' → (C s e → I s') ∧ (P s' → C s e))
    {s : σ} {es : List ε} (hi : I s) (ha : ∀ e ∈ es, A e) :
    (∀ n t, M.exec s (es.take n) = some t → P t) ↔ ∀ p ∈ M.trace s es, C p.1 p.2 := by
  induction es generalizing s with
  | nil =>
    constructor
    · intro _ p hmem
      cases hmem
    · intro _ n t ht
      rw [List.take_nil] at ht
      cases ht
      exact hp s hi
  | cons e es ih =>
    cases hst : M.step s e with
    | none =>
      constructor
      · intro _ p hmem
        rw [trace_match, hst] at hmem
        cases hmem
      · intro _ n t ht
        cases n with
        | zero =>
          cases ht
          exact hp s hi
        | succ n =>
          rw [List.take_succ_cons, exec_bind, hst] at ht
          cases ht
    | some s' =>
      obtain ⟨hkeep, hmeets⟩ := hs s e s' hi (ha e (List.mem_cons_self ..)) hst
      have hes : ∀ f ∈ es, A f := fun f hf => ha f (List.mem_cons_of_mem _ hf)
      rw [trace_cons M hst, List.forall_mem_cons]
      constructor
      · intro h
        have hc : C s e := hmeets (h 1 s' ((M.exec_cons hst _).trans rfl))
        refine ⟨hc, (ih (hkeep hc) hes).mp ?_⟩
        intro n t ht
        exact h (n + 1) t ((M.exec_cons hst _).trans ht)
      · intro h n t ht
        rcases h with ⟨hc, hrest⟩
        cases n with
        | zero =>
          cases ht
          exact hp s hi
        | succ n => exact (ih (hkeep hc) hes).mpr hrest n t ((M.exec_cons hst _).symm.trans ht)

end Machine

end Errand.Lib

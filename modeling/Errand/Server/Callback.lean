import Errand.Lib.Machine
import Mathlib.Logic.Function.Basic

/-
  Errand.Server.Callback — the result a task's runner posts back (`receive_task_result`,
  errand/main.py; `_process_task`, `_read_callback_result`, errand/task_manager.py).

  All attempts of a task share two keys of the store: the token an attempt issued to its
  runner, and the result accepted last. A POST looks at the token, deletes it and stores
  its body in three operations; an attempt reads the result and deletes both keys in two,
  in a thread that goes on when the attempt is cancelled. Either key expires at any time.

  Proved:
  - `step_attributed`: a step keeps what is stored, on its way or to be read one attempt's
    own, as long as no attempt begins before the one before it has left nothing behind.
  - `own_result`: in a run whose attempts all begin so, every result an attempt goes on
    with was posted with the token issued to it.
  - `a_result_left_behind`: a run in which an attempt does not.
-/

namespace Errand.Server.Callback

open Errand.Lib

/-- A stored body, with the token it was accepted under. -/
structure Result where
  token : String
  body : String
  deriving DecidableEq, Repr

inductive Stage where
  /-- The runner's container runs. -/
  | working
  /-- `_read_callback_result` is in its thread. -/
  | reading
  /-- It got `result`, and the keys are still to be deleted. -/
  | got (result : Option Result)
  | ended
  deriving DecidableEq, Repr

structure Attempt where
  /-- Issued to this attempt's runner. -/
  token : Option String
  stage : Stage
  /-- Neither cancelled nor crashed. -/
  alive : Bool
  /-- The callback result `_process_task` goes on with. -/
  outcome : Option Result
  deriving DecidableEq, Repr

/-- A POST whose token was the stored one. -/
structure Post where
  token : String
  /-- The token is deleted, the body is read. -/
  accepted : Bool
  deriving DecidableEq, Repr

structure St where
  tokenKey : Option String
  resultKey : Option Result
  posts : List Post
  attempts : Nat → Attempt
  begun : Nat

def start : St := ⟨none, none, [], fun _ => ⟨none, .ended, false, none⟩, 0⟩

inductive Event where
  /-- An attempt stores its token, or has no URL to be called back at, or the store fails. -/
  | begin (stored : Option String)
  | post (token : String)
  | consume (p : Nat)
  | store (p : Nat) (body : String)
  /-- A POST ends without a result stored. -/
  | refuse (p : Nat)
  | read (i : Nat)
  | get (i : Nat)
  | delete (i : Nat)
  /-- The store fails under the read, or its process is gone; `landed` if the keys are
      deleted all the same. -/
  | raise (i : Nat) (landed : Bool)
  /-- Cancelled, crashed, recovered as a zombie. -/
  | abandon (i : Nat)
  | expireToken
  | expireResult

def St.withAttempt (s : St) (i : Nat) (a : Attempt) : St := { s with attempts := Function.update s.attempts i a }

def machine : Machine St Event where
  init s := s = start
  step s e :=
    match e with
    | .begin stored => some
        { s with tokenKey := stored.or s.tokenKey,
                 attempts := Function.update s.attempts s.begun ⟨stored, .working, true, none⟩,
                 begun := s.begun + 1 }
    | .post token => if s.tokenKey = some token then some { s with posts := s.posts ++ [⟨token, false⟩] } else none
    | .consume p =>
      match s.posts[p]? with
      | some ⟨token, false⟩ => some { s with tokenKey := none, posts := s.posts.set p ⟨token, true⟩ }
      | _ => none
    | .store p body =>
      match s.posts[p]? with
      | some ⟨token, true⟩ => some { s with resultKey := some ⟨token, body⟩, posts := s.posts.eraseIdx p }
      | _ => none
    | .refuse p => some { s with posts := s.posts.eraseIdx p }
    | .read i =>
      let a := s.attempts i
      if a.stage = .working then some (s.withAttempt i { a with stage := .reading }) else none
    | .get i =>
      let a := s.attempts i
      if a.stage = .reading then some (s.withAttempt i { a with stage := .got s.resultKey }) else none
    | .delete i =>
      let a := s.attempts i
      match a.stage with
      | .got result =>
        let a' := { a with stage := .ended, outcome := if a.alive then result else none }
        some { s.withAttempt i a' with tokenKey := none, resultKey := none }
      | _ => none
    | .raise i landed =>
      let a := s.attempts i
      match a.stage with
      | .reading => some (s.withAttempt i { a with stage := .ended })
      | .got _ =>
        let s' := s.withAttempt i { a with stage := .ended }
        some (if landed then { s' with tokenKey := none, resultKey := none } else s')
      | _ => none
    | .abandon i =>
      let a := s.attempts i
      some (s.withAttempt i { a with alive := false, stage := if a.stage = .working then .ended else a.stage })
    | .expireToken => some { s with tokenKey := none }
    | .expireResult => some { s with resultKey := none }

/-! ## Whose results they are -/

/-- An attempt goes on with a result of its own only. -/
def Attributed (a : Attempt) : Prop := ∀ r, a.outcome = some r → a.token = some r.token

/-- No earlier attempt's result, token or reader is left when an attempt begins; its token
    may be, where the attempt stores one over it. -/
def Settled (s : St) : Event → Prop
  | .begin stored => (∀ i, (s.attempts i).stage = .ended) ∧ s.resultKey = none ∧ s.posts = [] ∧
      (stored = none → s.tokenKey = none)
  | _ => True

/-- Every attempt that may still read has the token `t`, and what is stored or on its way
    came with it. -/
structure Own (s : St) (t : Option String) : Prop where
  readers : ∀ i, (s.attempts i).stage ≠ .ended → (s.attempts i).token = t
  tokenKey : ∀ x, s.tokenKey = some x → t = some x
  resultKey : ∀ r, s.resultKey = some r → t = some r.token
  posts : ∀ p ∈ s.posts, t = some p.token
  got : ∀ i r, (s.attempts i).stage = .got (some r) → t = some r.token

def Inv (s : St) : Prop := (∃ t, Own s t) ∧ ∀ i, Attributed (s.attempts i)

theorem start_inv : Inv start :=
  ⟨⟨none, fun _ h => absurd rfl h, nofun, nofun, nofun, nofun⟩, fun _ => nofun⟩

/-! ## Steps -/

/-- What a step of attempt `i` may change: its stage, to one that holds only what is the
    attempt's own. -/
structure Moved (s : St) (i : Nat) (a : Attempt) (t : Option String) : Prop where
  token : a.token = (s.attempts i).token
  reader : a.stage ≠ .ended → (s.attempts i).stage ≠ .ended
  got : ∀ r, a.stage = .got (some r) → t = some r.token
  attributed : Attributed a

theorem Own.withAttempt {s : St} {t : Option String} {i : Nat} {a : Attempt} (h : Own s t) (hm : Moved s i a t) :
    Own (s.withAttempt i a) t := by
  refine ⟨?_, h.tokenKey, h.resultKey, h.posts, ?_⟩
  · intro j hj
    by_cases hij : j = i
    · subst hij
      simp only [St.withAttempt, Function.update_self] at hj ⊢
      rw [hm.token]
      exact h.readers j (hm.reader hj)
    · simp only [St.withAttempt, Function.update_of_ne hij] at hj ⊢
      exact h.readers j hj
  · intro j r hj
    by_cases hij : j = i
    · subst hij
      simp only [St.withAttempt, Function.update_self] at hj
      exact hm.got r hj
    · simp only [St.withAttempt, Function.update_of_ne hij] at hj
      exact h.got j r hj

theorem attributed_update {attempts : Nat → Attempt} {i : Nat} {a : Attempt} (h : ∀ j, Attributed (attempts j))
    (ha : Attributed a) (j : Nat) : Attributed (Function.update attempts i a j) := by
  by_cases hij : j = i
  · rw [hij, Function.update_self]
    exact ha
  · rw [Function.update_of_ne hij]
    exact h j

theorem moved_step {s : St} {i : Nat} {a : Attempt} (hi : Inv s) (hm : ∀ t, Own s t → Moved s i a t) :
    Inv (s.withAttempt i a) := by
  obtain ⟨⟨t, ht⟩, hattr⟩ := hi
  exact ⟨⟨t, ht.withAttempt (hm t ht)⟩, attributed_update hattr (hm t ht).attributed⟩

/-- What leaves less stored or on its way. -/
theorem Own.less {s s' : St} {t : Option String} (h : Own s t) (hattempts : s'.attempts = s.attempts)
    (htoken : ∀ x, s'.tokenKey = some x → s.tokenKey = some x)
    (hresult : ∀ r, s'.resultKey = some r → s.resultKey = some r ∨ t = some r.token)
    (hposts : ∀ p ∈ s'.posts, ∃ q ∈ s.posts, q.token = p.token) : Own s' t := by
  refine ⟨?_, ?_, ?_, ?_, ?_⟩
  · rw [hattempts]
    exact h.readers
  · intro x hx
    exact h.tokenKey x (htoken x hx)
  · intro r hr
    rcases hresult r hr with hr | hr
    · exact h.resultKey r hr
    · exact hr
  · intro p hp
    obtain ⟨q, hq, hqp⟩ := hposts p hp
    rw [← hqp]
    exact h.posts q hq
  · rw [hattempts]
    exact h.got

theorem begin_step {s s' : St} {stored : Option String} (hi : Inv s) (hc : Settled s (.begin stored))
    (h : machine.step s (.begin stored) = some s') : Inv s' := by
  obtain ⟨hover, hresult, hposts, htoken⟩ := hc
  obtain rfl := Option.some.inj h
  refine ⟨⟨stored, ?_, ?_, ?_, ?_, ?_⟩, attributed_update hi.2 nofun⟩
  · intro i hstage
    by_cases hib : i = s.begun
    · subst hib
      simp
    · simp only [Function.update_of_ne hib] at hstage
      exact absurd (hover i) hstage
  · intro x hx
    cases stored with
    | none =>
      rw [Option.none_or, htoken rfl] at hx
      cases hx
    | some token => exact hx
  · intro r hr
    rw [show s.resultKey = none from hresult] at hr
    cases hr
  · intro p hp
    rw [show s.posts = [] from hposts] at hp
    cases hp
  · intro i r hstage
    by_cases hib : i = s.begun
    · subst hib
      simp at hstage
    · simp only [Function.update_of_ne hib, hover i] at hstage
      cases hstage

theorem post_step {s s' : St} {token : String} (hi : Inv s) (h : machine.step s (.post token) = some s') : Inv s' := by
  simp only [machine, Option.ite_none_right_eq_some, Option.some.injEq] at h
  obtain ⟨hkey, rfl⟩ := h
  obtain ⟨⟨t, ht⟩, hattr⟩ := hi
  refine ⟨⟨t, ht.readers, ht.tokenKey, ht.resultKey, ?_, ht.got⟩, hattr⟩
  intro p hp
  rcases List.mem_append.mp hp with hp | hp
  · exact ht.posts p hp
  · rw [List.mem_singleton.mp hp]
    exact ht.tokenKey token hkey

theorem consume_step {s s' : St} {p : Nat} (hi : Inv s) (h : machine.step s (.consume p) = some s') : Inv s' := by
  simp only [machine] at h
  split at h
  · rename_i token hp
    obtain rfl := Option.some.inj h
    obtain ⟨⟨t, ht⟩, hattr⟩ := hi
    refine ⟨⟨t, ht.less rfl nofun (fun r hr => .inl hr) ?_⟩, hattr⟩
    intro q hq
    rcases List.mem_or_eq_of_mem_set hq with hq | rfl
    · exact ⟨q, hq, rfl⟩
    · exact ⟨_, List.mem_of_getElem? hp, rfl⟩
  · cases h

theorem store_step {s s' : St} {p : Nat} {body : String} (hi : Inv s)
    (h : machine.step s (.store p body) = some s') : Inv s' := by
  simp only [machine] at h
  split at h
  · rename_i token hp
    obtain rfl := Option.some.inj h
    obtain ⟨⟨t, ht⟩, hattr⟩ := hi
    refine ⟨⟨t, ht.less rfl (fun x hx => hx) ?_ ?_⟩, hattr⟩
    · intro r hr
      obtain rfl := Option.some.inj hr
      exact .inr (ht.posts _ (List.mem_of_getElem? hp))
    · intro q hq
      exact ⟨q, List.mem_of_mem_eraseIdx hq, rfl⟩
  · cases h

theorem read_step {s s' : St} {i : Nat} (hi : Inv s) (h : machine.step s (.read i) = some s') : Inv s' := by
  simp only [machine, Option.ite_none_right_eq_some, Option.some.injEq] at h
  obtain ⟨hstage, rfl⟩ := h
  refine moved_step hi fun t ht => ⟨rfl, ?_, nofun, hi.2 i⟩
  intro _
  rw [hstage]
  decide

theorem get_step {s s' : St} {i : Nat} (hi : Inv s) (h : machine.step s (.get i) = some s') : Inv s' := by
  simp only [machine, Option.ite_none_right_eq_some, Option.some.injEq] at h
  obtain ⟨hstage, rfl⟩ := h
  refine moved_step hi fun t ht => ⟨rfl, ?_, ?_, hi.2 i⟩
  · intro _
    rw [hstage]
    decide
  · intro r hr
    exact ht.resultKey r (Stage.got.inj hr)

/-- An attempt that is over is no reader. -/
theorem moved_ended {s : St} {i : Nat} {a : Attempt} {t : Option String} (htoken : a.token = (s.attempts i).token)
    (hstage : a.stage = .ended) (ha : Attributed a) : Moved s i a t := by
  refine ⟨htoken, fun h => absurd hstage h, ?_, ha⟩
  intro r hr
  rw [hstage] at hr
  cases hr

theorem Inv.cleared {s : St} (hi : Inv s) : Inv { s with tokenKey := none, resultKey := none } := by
  obtain ⟨⟨t, ht⟩, hattr⟩ := hi
  exact ⟨⟨t, ht.less rfl nofun nofun fun p hp => ⟨p, hp, rfl⟩⟩, hattr⟩

theorem delete_step {s s' : St} {i : Nat} (hi : Inv s) (h : machine.step s (.delete i) = some s') : Inv s' := by
  simp only [machine] at h
  split at h
  · rename_i result hstage
    obtain rfl := Option.some.inj h
    refine Inv.cleared (moved_step hi fun t ht => moved_ended rfl rfl ?_)
    intro r hr
    have hresult : result = some r := by
      simp only at hr
      split at hr
      · exact hr
      · cases hr
    subst hresult
    show (s.attempts i).token = some r.token
    rw [ht.readers i (by rw [hstage]; exact nofun), ht.got i r hstage]
  · cases h

theorem raise_step {s s' : St} {i : Nat} {landed : Bool} (hi : Inv s)
    (h : machine.step s (.raise i landed) = some s') : Inv s' := by
  have hover : Inv (s.withAttempt i { s.attempts i with stage := .ended }) :=
    moved_step hi fun t _ => moved_ended rfl rfl (hi.2 i)
  simp only [machine] at h
  split at h
  · obtain rfl := Option.some.inj h
    exact hover
  · obtain rfl := Option.some.inj h
    cases landed with
    | true => exact hover.cleared
    | false => exact hover
  · cases h

theorem abandon_step {s s' : St} {i : Nat} (hi : Inv s) (h : machine.step s (.abandon i) = some s') : Inv s' := by
  obtain rfl := Option.some.inj h
  refine moved_step hi fun t ht => ⟨rfl, ?_, ?_, hi.2 i⟩
  · intro hstage hover
    rw [hover] at hstage
    exact hstage rfl
  · intro r hr
    by_cases hw : (s.attempts i).stage = .working
    · simp [hw] at hr
    · simp only [if_neg hw] at hr
      exact ht.got i r hr

theorem step_attributed {s s' : St} {e : Event} (hi : Inv s) (hc : Settled s e) (h : machine.step s e = some s') :
    Inv s' := by
  cases e with
  | begin stored => exact begin_step hi hc h
  | post token => exact post_step hi h
  | consume p => exact consume_step hi h
  | store p body => exact store_step hi h
  | refuse p =>
    obtain rfl := Option.some.inj h
    obtain ⟨⟨t, ht⟩, hattr⟩ := hi
    exact ⟨⟨t, ht.less rfl (fun x hx => hx) (fun r hr => .inl hr)
      fun q hq => ⟨q, List.mem_of_mem_eraseIdx hq, rfl⟩⟩, hattr⟩
  | read i => exact read_step hi h
  | get i => exact get_step hi h
  | delete i => exact delete_step hi h
  | raise i landed => exact raise_step hi h
  | abandon i => exact abandon_step hi h
  | expireToken =>
    obtain rfl := Option.some.inj h
    obtain ⟨⟨t, ht⟩, hattr⟩ := hi
    exact ⟨⟨t, ht.less rfl nofun (fun r hr => .inl hr) fun p hp => ⟨p, hp, rfl⟩⟩, hattr⟩
  | expireResult =>
    obtain rfl := Option.some.inj h
    obtain ⟨⟨t, ht⟩, hattr⟩ := hi
    exact ⟨⟨t, ht.less rfl (fun x hx => hx) nofun fun p hp => ⟨p, hp, rfl⟩⟩, hattr⟩

/-! ## Runs -/

theorem own_result {s : St} (h : machine.ReachIf Settled s) (i : Nat) (r : Result)
    (ho : (s.attempts i).outcome = some r) : (s.attempts i).token = some r.token := by
  have hi : Inv s := h.inv (fun _ hs => hs ▸ start_inv) fun _ _ _ hi hc hs => step_attributed hi hc hs
  exact hi.2 i r ho

/-- An attempt ends without a result, and the next one gets its own. -/
theorem a_second_attempt : ∃ s : St, machine.ReachIf Settled s ∧ s.begun = 2 ∧
    (s.attempts 1).outcome = some ⟨"b", "done"⟩ ∧ (s.attempts 1).token = some "b" := by
  have h0 : machine.ReachIf Settled start := .init rfl
  have h1 := h0.step (Event.begin (some "a")) ⟨fun _ => rfl, rfl, rfl, nofun⟩ rfl
  have h2 := h1.step (Event.abandon 0) trivial rfl
  have h3 := h2.step (Event.begin (some "b")) ⟨(by cases · <;> rfl), rfl, rfl, nofun⟩ rfl
  have h4 := h3.step (Event.post "b") trivial rfl
  have h5 := h4.step (Event.consume 0) trivial rfl
  have h6 := h5.step (Event.store 0 "done") trivial rfl
  have h7 := h6.step (Event.read 1) trivial rfl
  have h8 := h7.step (Event.get 1) trivial rfl
  have h9 := h8.step (Event.delete 1) trivial rfl
  exact ⟨_, h9, rfl, rfl, own_result h9 1 ⟨"b", "done"⟩ rfl⟩

/-- An attempt whose runner posted is cancelled before the read; the next one's runner
    posts nothing. -/
theorem a_result_left_behind :
    ¬ ∀ s : St, machine.Reach s → ∀ i r, (s.attempts i).outcome = some r → (s.attempts i).token = some r.token := by
  intro h
  have hreach := (Machine.Reach.init (M := machine) rfl).exec (rfl : machine.exec start
    [.begin (some "a"), .post "a", .consume 0, .store 0 "done", .abandon 0,
     .begin (some "b"), .read 1, .get 1, .delete 1] = some _)
  exact absurd (h _ hreach 1 ⟨"a", "done"⟩ rfl) (by decide)

end Errand.Server.Callback

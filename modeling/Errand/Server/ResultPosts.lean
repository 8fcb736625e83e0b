import Errand.Lib.Machine
import Mathlib.Data.List.Nodup
import Mathlib.Logic.Function.Basic

/-
  Errand.Server.ResultPosts — the posts of one task's result (`receive_task_result`,
  errand/main.py), and the tokens its attempts issue (`_process_task`, errand/task_manager.py).

  A post gets the token, deletes it, reads its body and stores it, each on its own against a
  store that may fail; other posts, the end of a lifetime and the attempt that takes the
  result come in between. A deletion takes away whatever token is there.

  Proved:
  - `step_inv`: what a step keeps that deletes no token twice and fails no more once a living
    token is deleted.
  - `posted`: in a run of such steps a token is used once, the stored result is that of the
    post accepted last, and as long as a token lives and is not used a post with it is accepted.
  - `a_result_posted_twice`: runs in which this is not so.
-/

namespace Errand.Server.ResultPosts

open Errand.Lib

structure Result where
  token : String
  body : String
  deriving DecidableEq, Repr

inductive Stage where
  /-- Its token was the stored one. -/
  | checked
  /-- The token is deleted. -/
  | deleted
  /-- Its body is read. -/
  | bodied (body : String)
  deriving DecidableEq, Repr

structure Post where
  token : String
  stage : Stage
  deriving DecidableEq, Repr

/-- How a command of the store goes: one that fails may have been carried out. -/
inductive Reply where
  | ok
  | failed (landed : Bool)
  deriving DecidableEq, Repr

structure St where
  tokenKey : Option String
  resultKey : Option Result
  posts : Nat → Option Post
  next : Nat
  /-- The tokens so far, and the one whose lifetime lasts. -/
  issued : List String
  living : Option String
  /-- The tokens whose posts have deleted. -/
  used : List String
  accepted : List Result
  /-- What was accepted last has expired or was taken. -/
  taken : Bool

def start : St := ⟨none, none, fun _ => none, 0, [], none, [], [], false⟩

inductive Event where
  /-- An attempt stores its token over what is there. -/
  | issue (token : String)
  | expireToken
  | expireResult
  /-- An attempt that is over deletes both keys. -/
  | take
  /-- A post arrives and gets the token. -/
  | check (token : String) (reply : Reply)
  | delete (i : Nat) (reply : Reply)
  /-- None if the body cannot be read or is no text. -/
  | read (i : Nat) (body : Option String)
  | store (i : Nat) (reply : Reply)
  /-- A post ends with its process. -/
  | crash (i : Nat)
  deriving DecidableEq, Repr

def St.move (s : St) (i : Nat) (p : Option Post) : St := { s with posts := Function.update s.posts i p }

/-- `receive_task_result`, up to its next await; a post that is answered is gone. -/
def machine : Machine St Event where
  init s := s = start
  step s e :=
    match e with
    | .issue token =>
      if token ∈ s.issued then none
      else some { s with tokenKey := some token, living := some token, issued := token :: s.issued }
    | .expireToken => some { s with tokenKey := none, living := none }
    | .expireResult => some { s with resultKey := none, taken := true }
    | .take => some { s with tokenKey := none, living := none, resultKey := none, taken := true }
    | .check token reply =>
      if reply = .ok ∧ s.tokenKey = some token then
        some { s.move s.next (some ⟨token, .checked⟩) with next := s.next + 1 }
      else some s
    | .delete i reply =>
      match s.posts i with
      | some ⟨token, .checked⟩ =>
        match reply with
        | .ok => some { s.move i (some ⟨token, .deleted⟩) with tokenKey := none, used := token :: s.used }
        | .failed landed => some { s.move i none with tokenKey := if landed then none else s.tokenKey }
      | _ => none
    | .read i body =>
      match s.posts i with
      | some ⟨token, .deleted⟩ => some (s.move i (body.map fun body => ⟨token, .bodied body⟩))
      | _ => none
    | .store i reply =>
      match s.posts i with
      | some ⟨token, .bodied body⟩ =>
        match reply with
        | .ok => some
            { s.move i none with
              resultKey := some ⟨token, body⟩, taken := false, accepted := s.accepted ++ [⟨token, body⟩] }
        | .failed landed => some { s.move i none with resultKey := if landed then some ⟨token, body⟩ else s.resultKey }
      | _ => none
    | .crash i => some (s.move i none)

/-! ## Careful steps -/

/-- Post `i` has deleted the token and is not yet answered. -/
def Late (posts : Nat → Option Post) (i : Nat) (token : String) : Prop :=
  ∃ stage, stage ≠ .checked ∧ posts i = some ⟨token, stage⟩

/-- A token is deleted by one post only, and not another attempt's; and nothing fails once a
    living token is deleted. -/
def Careful (s : St) : Event → Prop
  | .delete i .ok => ∀ p, s.posts i = some p → p.token ∉ s.used ∧ ∀ t, s.tokenKey = some t → t = p.token
  | .delete _ (.failed landed) => landed = true → s.tokenKey = none
  | .read i none => ∀ t, Late s.posts i t → s.living ≠ some t
  | .store i (.failed landed) => landed = false ∧ ∀ t, Late s.posts i t → s.living ≠ some t
  | .crash i => ∀ t, Late s.posts i t → s.living ≠ some t
  | _ => True

/-- The steps of a post that meets no failure. -/
def post (s : St) (token body : String) : List Event :=
  [.check token .ok, .delete s.next .ok, .read s.next (some body), .store s.next .ok]

structure Sound (s : St) : Prop where
  once : (s.accepted.map (·.token)).Nodup
  stored : s.resultKey = if s.taken then none else s.accepted.getLast?
  /-- As long as a token lives and no post of it is accepted or about to be, one is. -/
  retried : ∀ t, s.living = some t → (∀ r ∈ s.accepted, r.token ≠ t) → (∀ i, ¬ Late s.posts i t) →
    ∀ body, ∃ s', machine.exec s (post s t body) = some s' ∧ ⟨t, body⟩ ∈ s'.accepted

structure Inv (s : St) : Prop where
  once : (s.accepted.map (·.token)).Nodup
  stored : s.resultKey = if s.taken then none else s.accepted.getLast?
  free : ∀ i, s.next ≤ i → s.posts i = none
  accepted_used : ∀ r ∈ s.accepted, r.token ∈ s.used
  used_issued : ∀ t ∈ s.used, t ∈ s.issued
  posts_issued : ∀ i p, s.posts i = some p → p.token ∈ s.issued
  late_used : ∀ i t, Late s.posts i t → t ∈ s.used
  late_one : ∀ i j t, Late s.posts i t → Late s.posts j t → i = j
  late_free : ∀ i t, Late s.posts i t → ∀ r ∈ s.accepted, r.token ≠ t
  key : ∀ t, s.tokenKey = some t → t ∈ s.issued
  unused : ∀ t, s.living = some t → t ∉ s.used → s.tokenKey = some t
  pending : ∀ t, s.living = some t → t ∈ s.used → (∃ i, Late s.posts i t) ∨ ∃ r ∈ s.accepted, r.token = t

theorem start_inv : Inv start where
  once := List.nodup_nil
  stored := rfl
  free _ _ := rfl
  accepted_used := nofun
  used_issued := nofun
  posts_issued := nofun
  late_used := nofun
  late_one := nofun
  late_free := nofun
  key := nofun
  unused := nofun
  pending := nofun

theorem late_update {posts : Nat → Option Post} {i j : Nat} {p : Option Post} {t : String} :
    Late (Function.update posts i p) j t ↔
      j = i ∧ (∃ stage, stage ≠ .checked ∧ p = some ⟨t, stage⟩) ∨ j ≠ i ∧ Late posts j t := by
  unfold Late
  by_cases h : j = i
  · subst h
    simp
  · simp [h]

theorem not_late_checked {posts : Nat → Option Post} {i : Nat} {token t : String}
    (h : posts i = some ⟨token, .checked⟩) : ¬ Late posts i t := by
  rintro ⟨stage, hstage, hpost⟩
  rw [h] at hpost
  cases hpost
  exact hstage rfl

theorem late_token {posts : Nat → Option Post} {i : Nat} {token t : String} {stage : Stage}
    (h : posts i = some ⟨token, stage⟩) (hl : Late posts i t) : t = token := by
  obtain ⟨_, -, hpost⟩ := hl
  rw [h] at hpost
  cases hpost
  rfl

theorem posts_update {s : St} {i : Nat} {p : Option Post} {t : String} (hi : ∀ j q, s.posts j = some q → q.token ∈ s.issued)
    (hp : ∀ q, p = some q → q.token = t) (ht : p ≠ none → t ∈ s.issued) :
    ∀ j q, Function.update s.posts i p j = some q → q.token ∈ s.issued := by
  intro j q hq
  by_cases hj : j = i
  · subst hj
    rw [Function.update_self] at hq
    rw [hp q hq]
    exact ht (by rw [hq]; exact nofun)
  · rw [Function.update_of_ne hj] at hq
    exact hi j q hq

/-- A post that is answered with an error, or never: if it had deleted a token, that lives no more. -/
theorem Inv.drop {s : St} (hi : Inv s) {i : Nat} (hc : ∀ t, Late s.posts i t → s.living ≠ some t) : Inv (s.move i none) := by
  have hlate : ∀ {j t}, Late (s.move i none).posts j t → j ≠ i ∧ Late s.posts j t := by
    intro j t h
    rcases late_update.mp h with ⟨-, _, _, hnone⟩ | h
    · cases hnone
    · exact h
  refine ⟨hi.once, hi.stored, ?_, hi.accepted_used, hi.used_issued, ?_, fun j t h => hi.late_used j t (hlate h).2,
    fun j k t h h' => hi.late_one j k t (hlate h).2 (hlate h').2, fun j t h => hi.late_free j t (hlate h).2, hi.key, hi.unused, ?_⟩
  · intro j hj
    by_cases hij : j = i
    · subst hij
      exact Function.update_self ..
    · exact (Function.update_of_ne hij ..).trans (hi.free j hj)
  · exact posts_update (t := "") hi.posts_issued nofun fun h => absurd rfl h
  · intro t hliving hused
    rcases hi.pending t hliving hused with ⟨j, hj⟩ | haccepted
    · refine .inl ⟨j, late_update.mpr (.inr ⟨?_, hj⟩)⟩
      rintro rfl
      exact hc t hj hliving
    · exact .inr haccepted

theorem issue_step {s s' : St} {token : String} (hi : Inv s) (h : machine.step s (.issue token) = some s') : Inv s' := by
  simp only [machine, Option.ite_none_left_eq_some, Option.some.injEq] at h
  obtain ⟨hfresh, rfl⟩ := h
  have hunused : token ∉ s.used := fun hmem => hfresh (hi.used_issued token hmem)
  refine ⟨hi.once, hi.stored, hi.free, hi.accepted_used, fun t ht => List.mem_cons_of_mem _ (hi.used_issued t ht),
    fun i p hp => List.mem_cons_of_mem _ (hi.posts_issued i p hp), hi.late_used, hi.late_one, hi.late_free, ?_, ?_, ?_⟩
  · rintro t ⟨⟩
    exact List.mem_cons_self ..
  · rintro t ⟨⟩ _
    rfl
  · rintro t ⟨⟩ hused
    exact absurd hused hunused

theorem Inv.end {s : St} (hi : Inv s) : Inv { s with tokenKey := none, living := none } :=
  ⟨hi.once, hi.stored, hi.free, hi.accepted_used, hi.used_issued, hi.posts_issued, hi.late_used, hi.late_one, hi.late_free,
    nofun, nofun, nofun⟩

theorem Inv.clear {s : St} (hi : Inv s) : Inv { s with resultKey := none, taken := true } :=
  ⟨hi.once, rfl, hi.free, hi.accepted_used, hi.used_issued, hi.posts_issued, hi.late_used, hi.late_one, hi.late_free,
    hi.key, hi.unused, hi.pending⟩

theorem check_step {s s' : St} {token : String} {reply : Reply} (hi : Inv s)
    (h : machine.step s (.check token reply) = some s') : Inv s' := by
  simp only [machine] at h
  split at h
  · rename_i hkey
    obtain rfl := Option.some.inj h
    have hlate : ∀ {j t}, Late (Function.update s.posts s.next (some ⟨token, .checked⟩)) j t ↔ Late s.posts j t := by
      intro j t
      rw [late_update]
      constructor
      · rintro (⟨-, stage, hstage, hp⟩ | h)
        · cases hp
          exact absurd rfl hstage
        · exact h.2
      · intro hl
        refine .inr ⟨?_, hl⟩
        rintro rfl
        obtain ⟨_, -, hpost⟩ := hl
        rw [hi.free s.next (Nat.le_refl _)] at hpost
        cases hpost
    refine ⟨hi.once, hi.stored, ?_, hi.accepted_used, hi.used_issued, ?_, fun j t h => hi.late_used j t (hlate.mp h),
      fun j k t h h' => hi.late_one j k t (hlate.mp h) (hlate.mp h'), fun j t h => hi.late_free j t (hlate.mp h), hi.key,
      hi.unused, ?_⟩
    · intro j hj
      have hlt : s.next < j := hj
      exact (Function.update_of_ne (Nat.ne_of_gt hlt) ..).trans (hi.free j (Nat.le_of_lt hlt))
    · exact posts_update hi.posts_issued (fun q hq => by cases hq; rfl) fun _ => hi.key token hkey.2
    · intro t hliving hused
      rcases hi.pending t hliving hused with ⟨j, hj⟩ | haccepted
      · exact .inl ⟨j, hlate.mpr hj⟩
      · exact .inr haccepted
  · obtain rfl := Option.some.inj h
    exact hi

theorem delete_step {s s' : St} {i : Nat} {reply : Reply} (hi : Inv s) (hc : Careful s (.delete i reply))
    (h : machine.step s (.delete i reply) = some s') : Inv s' := by
  simp only [machine] at h
  split at h
  · rename_i token hpost
    split at h
    · obtain rfl := Option.some.inj h
      obtain ⟨hunused, hkey⟩ := hc _ hpost
      dsimp only at hunused hkey
      have hlate : ∀ {j t}, Late (Function.update s.posts i (some ⟨token, .deleted⟩)) j t →
          j = i ∧ t = token ∨ j ≠ i ∧ Late s.posts j t := by
        intro j t h
        rcases late_update.mp h with ⟨hj, stage, -, hp⟩ | h
        · cases hp
          exact .inl ⟨hj, rfl⟩
        · exact .inr h
      have hself : Late (Function.update s.posts i (some ⟨token, .deleted⟩)) i token :=
        late_update.mpr (.inl ⟨rfl, .deleted, nofun, rfl⟩)
      refine ⟨hi.once, hi.stored, ?_, fun r hr => List.mem_cons_of_mem _ (hi.accepted_used r hr), ?_, ?_, ?_, ?_, ?_, nofun,
        ?_, ?_⟩
      · intro j hj
        have hne : j ≠ i := by
          rintro rfl
          rw [hi.free j hj] at hpost
          cases hpost
        exact (Function.update_of_ne hne ..).trans (hi.free j hj)
      · intro t ht
        rcases List.mem_cons.mp ht with rfl | ht
        · exact hi.posts_issued i _ hpost
        · exact hi.used_issued t ht
      · exact posts_update hi.posts_issued (fun q hq => by cases hq; rfl) fun _ => hi.posts_issued i _ hpost
      · intro j t hl
        rcases hlate hl with ⟨-, rfl⟩ | ⟨-, hl⟩
        · exact List.mem_cons_self ..
        · exact List.mem_cons_of_mem _ (hi.late_used j t hl)
      · intro j k t hl hl'
        rcases hlate hl with ⟨hj, ht⟩ | ⟨-, hprev⟩
        · rcases hlate hl' with ⟨hk, -⟩ | ⟨-, hprev'⟩
          · exact hj.trans hk.symm
          · exact absurd (hi.late_used k t hprev') (ht ▸ hunused)
        · rcases hlate hl' with ⟨-, ht⟩ | ⟨-, hprev'⟩
          · exact absurd (hi.late_used j t hprev) (ht ▸ hunused)
          · exact hi.late_one j k t hprev hprev'
      · intro j t hl r hr
        rcases hlate hl with ⟨rfl, rfl⟩ | ⟨-, hl⟩
        · rintro heq
          exact hunused (heq ▸ hi.accepted_used r hr)
        · exact hi.late_free j t hl r hr
      · intro t hliving hnot
        rw [List.mem_cons, not_or] at hnot
        exact absurd (hkey t (hi.unused t hliving hnot.2)) hnot.1
      · intro t hliving hused
        rcases List.mem_cons.mp hused with rfl | hused
        · exact .inl ⟨i, hself⟩
        · rcases hi.pending t hliving hused with ⟨j, hj⟩ | haccepted
          · refine .inl ⟨j, late_update.mpr (.inr ⟨?_, hj⟩)⟩
            rintro rfl
            exact not_late_checked hpost hj
          · exact .inr haccepted
    · rename_i landed
      obtain rfl := Option.some.inj h
      have hkey : (if landed = true then none else s.tokenKey) = s.tokenKey := by
        split
        · rename_i hlanded
          exact (hc hlanded).symm
        · rfl
      have hdrop := hi.drop fun t hl => absurd hl (not_late_checked hpost)
      rw [hkey]
      exact hdrop
  · cases h

theorem read_step {s s' : St} {i : Nat} {body : Option String} (hi : Inv s) (hc : Careful s (.read i body))
    (h : machine.step s (.read i body) = some s') : Inv s' := by
  simp only [machine] at h
  split at h
  · rename_i token hpost
    obtain rfl := Option.some.inj h
    cases body with
    | none => exact hi.drop hc
    | some body =>
      have hlate : ∀ {j t}, Late (Function.update s.posts i (some ⟨token, .bodied body⟩)) j t ↔ Late s.posts j t := by
        intro j t
        rw [late_update]
        constructor
        · rintro (⟨rfl, stage, -, hp⟩ | h)
          · cases hp
            exact ⟨.deleted, nofun, hpost⟩
          · exact h.2
        · intro hl
          by_cases hj : j = i
          · subst hj
            exact .inl ⟨rfl, .bodied body, nofun, by rw [late_token hpost hl]⟩
          · exact .inr ⟨hj, hl⟩
      refine ⟨hi.once, hi.stored, ?_, hi.accepted_used, hi.used_issued, ?_, fun j t h => hi.late_used j t (hlate.mp h),
        fun j k t h h' => hi.late_one j k t (hlate.mp h) (hlate.mp h'), fun j t h => hi.late_free j t (hlate.mp h), hi.key,
        hi.unused, ?_⟩
      · intro j hj
        have hne : j ≠ i := by
          rintro rfl
          rw [hi.free j hj] at hpost
          cases hpost
        exact (Function.update_of_ne hne ..).trans (hi.free j hj)
      · exact posts_update hi.posts_issued (fun q hq => by cases hq; rfl) fun _ => hi.posts_issued i _ hpost
      · intro t hliving hused
        rcases hi.pending t hliving hused with ⟨j, hj⟩ | haccepted
        · exact .inl ⟨j, hlate.mpr hj⟩
        · exact .inr haccepted
  · cases h

theorem store_step {s s' : St} {i : Nat} {reply : Reply} (hi : Inv s) (hc : Careful s (.store i reply))
    (h : machine.step s (.store i reply) = some s') : Inv s' := by
  simp only [machine] at h
  split at h
  · rename_i token body hpost
    split at h
    · obtain rfl := Option.some.inj h
      have hself : Late s.posts i token := ⟨.bodied body, nofun, hpost⟩
      have hlate : ∀ {j t}, Late (Function.update s.posts i none) j t → j ≠ i ∧ Late s.posts j t := by
        intro j t h
        rcases late_update.mp h with ⟨-, _, _, hnone⟩ | h
        · cases hnone
        · exact h
      refine ⟨?_, ?_, ?_, ?_, hi.used_issued, ?_, fun j t h => hi.late_used j t (hlate h).2,
        fun j k t h h' => hi.late_one j k t (hlate h).2 (hlate h').2, ?_, hi.key, hi.unused, ?_⟩
      · rw [List.map_append, List.nodup_append]
        refine ⟨hi.once, List.nodup_singleton _, ?_⟩
        intro a ha b hb
        obtain ⟨r, hr, rfl⟩ := List.mem_map.mp ha
        rw [List.mem_singleton.mp hb]
        exact hi.late_free i token hself r hr
      · exact (List.getLast?_concat ..).symm
      · intro j hj
        by_cases hij : j = i
        · subst hij
          exact Function.update_self ..
        · exact (Function.update_of_ne hij ..).trans (hi.free j hj)
      · intro r hr
        rcases List.mem_append.mp hr with hr | hr
        · exact hi.accepted_used r hr
        · rw [List.mem_singleton.mp hr]
          exact hi.late_used i token hself
      · exact posts_update (t := token) hi.posts_issued nofun fun h => absurd rfl h
      · intro j t hl r hr
        obtain ⟨hj, hl⟩ := hlate hl
        rcases List.mem_append.mp hr with hr | hr
        · exact hi.late_free j t hl r hr
        · rw [List.mem_singleton.mp hr]
          rintro rfl
          exact hj (hi.late_one j i _ hl hself)
      · intro t hliving hused
        rcases hi.pending t hliving hused with ⟨j, hj⟩ | ⟨r, hr, hrt⟩
        · by_cases hij : j = i
          · subst hij
            rw [late_token hpost hj]
            exact .inr ⟨⟨token, body⟩, List.mem_append_right _ (List.mem_singleton_self _), rfl⟩
          · exact .inl ⟨j, late_update.mpr (.inr ⟨hij, hj⟩)⟩
        · exact .inr ⟨r, List.mem_append_left _ hr, hrt⟩
    · rename_i landed
      obtain rfl := Option.some.inj h
      obtain ⟨rfl, hdead⟩ := hc
      exact hi.drop hdead
  · cases h

theorem step_inv {s s' : St} {e : Event} (hi : Inv s) (hc : Careful s e) (h : machine.step s e = some s') : Inv s' := by
  cases e with
  | issue token => exact issue_step hi h
  | expireToken =>
    obtain rfl := Option.some.inj h
    exact hi.end
  | expireResult =>
    obtain rfl := Option.some.inj h
    exact hi.clear
  | take =>
    obtain rfl := Option.some.inj h
    exact hi.end.clear
  | check token reply => exact check_step hi h
  | delete i reply => exact delete_step hi hc h
  | read i body => exact read_step hi hc h
  | store i reply => exact store_step hi hc h
  | crash i =>
    obtain rfl := Option.some.inj h
    exact hi.drop hc

/-! ## Runs -/

/-- A post with the token that is there is accepted if the store works. -/
theorem post_accepted {s : St} {t : String} (h : s.tokenKey = some t) (body : String) :
    ∃ s', machine.exec s (post s t body) = some s' ∧ ⟨t, body⟩ ∈ s'.accepted := by
  simp [post, Machine.exec, machine, St.move, h]

theorem Inv.sound {s : St} (hi : Inv s) : Sound s := by
  refine ⟨hi.once, hi.stored, fun t hliving haccepted hlate body => post_accepted ?_ body⟩
  refine hi.unused t hliving fun hused => ?_
  rcases hi.pending t hliving hused with ⟨i, hl⟩ | ⟨r, hr, hrt⟩
  · exact hlate i hl
  · exact haccepted r hr hrt

end Errand.Server.ResultPosts

import Errand.Lib.Machine
import Errand.Lib.Rotation
import Mathlib.Data.List.Perm.Basic

/-
  Errand.Frontend.Session — the tokens of a login in the browser: the auth store
  (`stores/auth.ts`), the refresh of an API call answered 401 (`tryRefresh`, `authFetch` of
  `useApi.ts`) and `POST /auth/refresh` (`auth_routes.py`).

  A refresh presents the refresh token in memory, is answered, and its answer is received,
  each at any time, with API calls and other refreshes in between; a reload forgets all that
  is under way but for the requests that have been sent. The provider takes a token until it
  has exchanged it and the client has received its successor; what an answer omits is
  unchanged. A timer that is due at once fires as a step of its own.

  Beside the tokens, `received` has those last received, `superseded` the refresh tokens
  whose successor was received, `discarded` those the client let go of though they were
  still good, and `redirects` says of every redirect to the login whether there was a good
  one when the call was made.

  Proved:
  - `survives_iff`: all along a run nothing good is discarded, storage has what was received
    last, no exchanged token is presented twice and no call redirects that had a good one,
    exactly if no refresh is begun with a token that has been exchanged, none is exchanged
    that was presented twice, an answer to a scheduled refresh brings nothing new, and one
    to the refresh of a call is no failure and has a refresh token, and an id token where
    there was one.
  - `an_omitted_token_is_discarded`: a provider that does not rotate.
-/

namespace Errand.Frontend.Session

open Errand.Lib Errand.Lib.Rotation

/-- `auth_token`, `auth_id_token` and `auth_refresh_token`. Refresh tokens are known by their
    place in the order of issue. -/
structure Tokens where
  token : Option String
  idToken : Option String
  refreshToken : Option Nat
  deriving DecidableEq, Repr

def Tokens.none : Tokens := ⟨.none, .none, .none⟩

/-- What `refresh` returns: the fields the provider's answer has. -/
structure Response where
  accessToken : String
  idToken : Option String
  refreshToken : Option Nat
  deriving DecidableEq, Repr

inductive Answer where
  | tokens (data : Response)
  /-- Not `ok`, or an exception. -/
  | failed
  deriving DecidableEq, Repr

inductive Way where
  | scheduled
  /-- For an API call, with whether there was a good refresh token when it was made. -/
  | call (hadGood : Bool)
  deriving DecidableEq, Repr

structure Refresh where
  presented : Nat
  way : Way
  answer : Option Answer
  deriving DecidableEq, Repr

structure State where
  memory : Tokens
  storage : Tokens
  /-- `refreshTimer` is set. -/
  timer : Bool
  /-- The API calls under way, each with whether there was a good refresh token. -/
  calls : List Bool
  refreshes : List Refresh
  /-- What was presented and not answered by the time of a reload. -/
  orphans : List Nat
  issuer : Issuer
  /-- Refresh tokens the provider takes no more. -/
  retired : List Nat
  superseded : List Nat
  received : Tokens
  discarded : List Nat
  redirects : List Bool
  deriving DecidableEq, Repr

def held (s : State) : List Nat := s.memory.refreshToken.toList ++ s.storage.refreshToken.toList

/-- A refresh token that the provider takes and whose successor was not received. -/
def good (s : State) (t : Nat) : Bool := !s.superseded.contains t && !s.retired.contains t

/-! ## The auth store -/

/-- `due` says whether the access token can be read and names its expiry. -/
def scheduleRefresh (due : Bool) (s : State) : State :=
  { s with timer := due && s.memory.token.isSome && s.memory.refreshToken.isSome }

/-- A POST to `/auth/refresh`, if there is a refresh token. -/
def present (way : Way) (s : State) : State :=
  match s.memory.refreshToken with
  | none => s
  | some t => { s with issuer := s.issuer.send t, refreshes := s.refreshes ++ [⟨t, way, none⟩] }

def setToken (data : Response) (due : Bool) (s : State) : State :=
  let tokens : Tokens := ⟨some data.accessToken, data.idToken, data.refreshToken⟩
  scheduleRefresh due { s with memory := tokens, storage := tokens }

def clearToken (s : State) : State :=
  { s with memory := .none, storage := .none, timer := false, received := .none }

/-- `data.id_token` and `data.refresh_token` are looked at. -/
def update (tokens : Tokens) (data : Response) : Tokens :=
  ⟨some data.accessToken, data.idToken <|> tokens.idToken, data.refreshToken <|> tokens.refreshToken⟩

/-- The client has the answer. -/
def receipt (t : Nat) (data : Response) (s : State) : State :=
  { s with
    received := update s.received data
    superseded := if data.refreshToken.isSome then t :: s.superseded else s.superseded }

/-- The end of `doRefresh`. -/
def scheduledAnswer (t : Nat) (due : Bool) (s : State) : Answer → State
  | .tokens data => scheduleRefresh due { receipt t data s with memory := update s.memory data }
  | .failed => s

def logout (hadGood : Bool) (s : State) : State :=
  { clearToken s with redirects := s.redirects ++ [hadGood] }

/-- The end of `tryRefresh`, and of the call if it failed. -/
def callAnswer (t : Nat) (hadGood due : Bool) (s : State) : Answer → State
  | .tokens data => setToken data due (receipt t data s)
  | .failed => logout hadGood s

/-- An answer is received. -/
def finish (t : Nat) (due : Bool) (s : State) : Way → Answer → State
  | .scheduled, answer => scheduledAnswer t due s answer
  | .call hadGood, answer => callAnswer t hadGood due s answer

/-! ## Steps -/

inductive Event where
  | call
  /-- Answered with another status than 401. -/
  | answered (i : Nat)
  | unauthorized (i : Nat)
  | fire
  | grant (j : Nat) (accessToken : String) (idToken : Option String) (rotates : Bool)
  /-- The provider takes the token no more. -/
  | refuse (j : Nat)
  /-- No answer, or one of an error; the provider may have exchanged the token. -/
  | fail (j : Nat) (rotates : Bool)
  | receive (j : Nat) (due : Bool)
  | reload (due : Bool)
  | exchangeOrphan (k : Nat)
  | retire (t : Nat)
  deriving DecidableEq, Repr

def exchanged (issuer : Issuer) (t : Nat) (rotates : Bool) : Issuer := if rotates then issuer.exchange t else issuer

def answerWith (j : Nat) (r : Refresh) (answer : Answer) (s : State) : State :=
  { s with refreshes := s.refreshes.set j { r with answer := some answer } }

def act (s : State) : Event → Option State
  | .call => some { s with calls := s.calls ++ [(held s).any (good s)] }
  | .answered i => if i < s.calls.length then some { s with calls := s.calls.eraseIdx i } else none
  | .unauthorized i =>
    s.calls[i]?.map fun hadGood =>
      let s' := { s with calls := s.calls.eraseIdx i }
      match s.memory.refreshToken with
      | none => logout hadGood s'
      | some _ => present (.call hadGood) s'
  | .fire => if s.timer then some (present .scheduled { s with timer := false }) else none
  | .grant j accessToken idToken rotates =>
    match s.refreshes[j]? with
    | some ⟨t, way, none⟩ =>
      if t ∈ s.retired then none
      else
        let refreshToken := if rotates then some s.issuer.next else none
        some { answerWith j ⟨t, way, none⟩ (.tokens ⟨accessToken, idToken, refreshToken⟩) s with
          issuer := exchanged s.issuer t rotates }
    | _ => none
  | .refuse j =>
    match s.refreshes[j]? with
    | some ⟨t, way, none⟩ => if t ∈ s.retired then some (answerWith j ⟨t, way, none⟩ .failed s) else none
    | _ => none
  | .fail j rotates =>
    match s.refreshes[j]? with
    | some ⟨t, way, none⟩ =>
      if t ∈ s.retired ∧ rotates = true then none
      else some { answerWith j ⟨t, way, none⟩ .failed s with issuer := exchanged s.issuer t rotates }
    | _ => none
  | .receive j due =>
    match s.refreshes[j]? with
    | some ⟨t, way, some answer⟩ => some (finish t due { s with refreshes := s.refreshes.eraseIdx j } way answer)
    | _ => none
  | .reload due =>
    some (scheduleRefresh due { s with
      memory := s.storage, calls := [], refreshes := []
      orphans := s.orphans ++ (s.refreshes.filter fun r => r.answer.isNone).map (·.presented) })
  | .exchangeOrphan k =>
    match s.orphans[k]? with
    | some t =>
      if t ∈ s.retired then none
      else some { s with orphans := s.orphans.eraseIdx k, issuer := s.issuer.exchange t }
    | none => none
  | .retire t => if t ∈ s.superseded then some { s with retired := t :: s.retired } else none

/-- What the step lets go of. -/
def note (s s' : State) : State :=
  { s' with discarded := s'.discarded ++ (held s).filter fun t => good s' t && !(held s').contains t }

def machine : Machine State Event where
  init s :=
    s.memory = s.storage ∧ s.received = s.storage ∧ (∀ t ∈ s.memory.refreshToken, t ≤ s.issuer.issued) ∧
      s.calls = [] ∧ s.refreshes = [] ∧ s.orphans = [] ∧ s.issuer.sent = [] ∧ s.issuer.spent = [] ∧
      s.retired = [] ∧ s.superseded = [] ∧ s.discarded = [] ∧ s.redirects = []
  step s e := (act s e).map (note s)

/-! ## A session that survives, and when it does -/

structure Survives (s : State) : Prop where
  kept : s.discarded = []
  stored : s.storage = s.received
  once : ∀ t ∈ s.issuer.spent, s.issuer.sent.count t ≤ 1
  fair : ∀ hadGood ∈ s.redirects, hadGood = false

/-- A refresh is begun with a token that has not been exchanged. -/
def Unexchanged (s : State) : Prop := ∀ t ∈ s.memory.refreshToken, t ∉ s.issuer.spent

/-- What the answer to a refresh may be. -/
def Welcome (s : State) : Way → Answer → Prop
  | .scheduled, .tokens data =>
    s.storage.token = some data.accessToken ∧ (∀ x ∈ data.idToken, s.storage.idToken = some x) ∧
      data.refreshToken = none
  | .scheduled, .failed => True
  | .call _, .tokens data =>
    data.refreshToken.isSome = true ∧ (s.storage.idToken.isSome = true → data.idToken.isSome = true)
  | .call _, .failed => False

def Sound (s : State) : Event → Prop
  | .unauthorized _ => Unexchanged s
  | .fire => Unexchanged s
  | .grant j _ _ rotates =>
    rotates = true → ∀ r, s.refreshes[j]? = some r → s.issuer.sent.count r.presented ≤ 1
  | .fail j rotates => rotates = true → ∀ r, s.refreshes[j]? = some r → s.issuer.sent.count r.presented ≤ 1
  | .exchangeOrphan k => ∀ t, s.orphans[k]? = some t → s.issuer.sent.count t ≤ 1
  | .receive j _ => ∀ r answer, s.refreshes[j]? = some r → r.answer = some answer → Welcome s r.way answer
  | _ => True

/-! ## The invariant -/

structure Inv (s : State) : Prop extends Survives s where
  same : s.memory = s.storage
  live : ∀ t ∈ s.memory.refreshToken, t ∉ s.superseded
  known : ∀ t ∈ s.memory.refreshToken, t ≤ s.issuer.issued
  retired : ∀ t ∈ s.retired, t ∈ s.superseded
  superseded : ∀ t ∈ s.superseded, t ∈ s.issuer.sent
  spent : ∀ t ∈ s.issuer.spent, t ∈ s.issuer.sent
  sent : s.issuer.Known s.issuer.sent
  orphaned : ∀ t ∈ s.orphans, t ∈ s.issuer.sent
  current : ∀ r ∈ s.refreshes, s.memory.refreshToken = some r.presented
  flying : ∀ t, (s.refreshes.map (·.presented)).count t ≤ s.issuer.sent.count t
  /-- A successor that is on its way has not been presented. -/
  fresh : ∀ r ∈ s.refreshes, ∀ data, r.answer = some (.tokens data) → ∀ n ∈ data.refreshToken,
    n ∉ s.issuer.sent ∧ n ≤ s.issuer.issued ∧ r.presented ∈ s.issuer.spent
  idle : s.memory.refreshToken = none → ∀ hadGood ∈ s.calls, hadGood = false

theorem inv_init {s : State} (h : machine.init s) : Inv s := by
  obtain ⟨hsame, hreceived, hknown, hcalls, hrefreshes, horphans, hsent, hspent, hretired, hsuperseded, hdiscarded,
    hredirects⟩ := h
  have hnil : ∀ {α : Type} {xs : List α} {P : α → Prop}, xs = [] → ∀ x ∈ xs, P x := by
    intro α xs P hxs x hx
    rw [hxs] at hx
    cases hx
  refine ⟨⟨hdiscarded, hreceived.symm, hnil hspent, hnil hredirects⟩, hsame, ?_, hknown, hnil hretired,
    hnil hsuperseded, hnil hspent, hnil hsent, hnil horphans, hnil hrefreshes, ?_, hnil hrefreshes,
    fun _ => hnil hcalls⟩
  · intro t _
    rw [hsuperseded]
    exact List.not_mem_nil
  · intro t
    rw [hrefreshes]
    exact Nat.zero_le _

namespace Inv

variable {s : State}

theorem held_none (h : Inv s) (hnone : s.memory.refreshToken = none) : held s = [] := by
  unfold held
  rw [← h.same, hnone]
  rfl

theorem held_mem (h : Inv s) {t : Nat} : t ∈ held s ↔ s.memory.refreshToken = some t := by
  unfold held
  rw [← h.same]
  cases s.memory.refreshToken <;> simp [eq_comm]

/-- The refresh token of a refresh that is under way has been presented. -/
theorem presented (h : Inv s) {r : Refresh} (hr : r ∈ s.refreshes) : r.presented ∈ s.issuer.sent := by
  have hcount := h.flying r.presented
  have hpos : 0 < (s.refreshes.map (·.presented)).count r.presented :=
    List.count_pos_iff.mpr (List.mem_map_of_mem hr)
  exact List.count_pos_iff.mp (Nat.lt_of_lt_of_le hpos hcount)

end Inv

/-- A step that holds on to what is good lets go of nothing. -/
theorem inv_note {s s' : State} (h : Inv s') (hkept : ∀ t ∈ held s, good s' t = true → t ∈ held s') :
    Inv (note s s') := by
  have hnone : ((held s).filter fun t => good s' t && !(held s').contains t) = [] := by
    refine List.filter_eq_nil_iff.mpr ?_
    intro t ht hlost
    obtain ⟨hgood, hgone⟩ := Bool.and_eq_true_iff.mp hlost
    rw [List.contains_iff_mem.mpr (hkept t ht hgood)] at hgone
    cases hgone
  unfold note
  rw [hnone, List.append_nil]
  exact h

theorem inv_note_same {s s' : State} (h : Inv s') (hheld : held s' = held s) : Inv (note s s') :=
  inv_note h fun _ ht _ => hheld ▸ ht

/-! ## What each step keeps -/

section Steps

variable {s : State}

theorem inv_call (h : Inv s) : Inv { s with calls := s.calls ++ [(held s).any (good s)] } := by
  refine { h with idle := ?_ }
  intro hnone hadGood hmem
  rcases List.mem_append.mp hmem with hold | hnew
  · exact h.idle hnone hadGood hold
  · obtain rfl := List.mem_singleton.mp hnew
    rw [h.held_none hnone]
    rfl

theorem inv_calls (h : Inv s) (i : Nat) : Inv { s with calls := s.calls.eraseIdx i } :=
  { h with idle := fun hnone hadGood hmem => h.idle hnone hadGood (List.mem_of_mem_eraseIdx hmem) }

theorem inv_timer (h : Inv s) (timer : Bool) : Inv { s with timer := timer } := { h with }

theorem inv_present (h : Inv s) (hc : Unexchanged s) (way : Way) : Inv (present way s) := by
  unfold present
  split
  next => exact h
  next t ht =>
    have hmem : t ∈ s.memory.refreshToken := ht
    refine { h with
      once := ?_, superseded := ?_, spent := ?_, sent := ?_, orphaned := ?_, current := ?_, flying := ?_, fresh := ?_ }
    · intro u hu
      show (t :: s.issuer.sent).count u ≤ 1
      have hne : t ≠ u := by
        rintro rfl
        exact hc t hmem hu
      rw [List.count_cons_of_ne hne]
      exact h.once u hu
    · exact fun u hu => List.mem_cons_of_mem _ (h.superseded u hu)
    · exact fun u hu => List.mem_cons_of_mem _ (h.spent u hu)
    · exact Issuer.Known.cons (h.known t hmem) h.sent
    · exact fun u hu => List.mem_cons_of_mem _ (h.orphaned u hu)
    · intro r hr
      rcases List.mem_append.mp hr with hold | hnew
      · exact h.current r hold
      · obtain rfl := List.mem_singleton.mp hnew
        exact ht
    · intro u
      show ((s.refreshes ++ [(⟨t, way, none⟩ : Refresh)]).map (·.presented)).count u ≤
        (t :: s.issuer.sent).count u
      have hold := h.flying u
      rw [List.map_append, List.count_append, List.count_cons]
      simp only [List.map_cons, List.map_nil, List.count_cons, List.count_nil]
      omega
    · intro r hr data hdata n hn
      rcases List.mem_append.mp hr with hold | hnew
      · obtain ⟨hnot, hle, hspent⟩ := h.fresh r hold data hdata n hn
        refine ⟨?_, hle, hspent⟩
        -- what is in memory has been presented before, by the refresh under way
        intro hmem'
        rcases List.mem_cons.mp hmem' with rfl | hmem'
        · have hcur := h.current r hold
          rw [ht] at hcur
          have hsent := h.presented hold
          rw [← Option.some.inj hcur] at hsent
          exact hnot hsent
        · exact hnot hmem'
      · obtain rfl := List.mem_singleton.mp hnew
        cases hdata

theorem held_present (way : Way) : held (present way s) = held s := by
  unfold present
  split <;> rfl

/-- Without a refresh token there is nothing to lose. -/
theorem inv_logout (h : Inv s) (hnone : s.memory.refreshToken = none) : Inv (logout false s) := by
  have hempty : s.refreshes = [] := by
    refine List.eq_nil_iff_forall_not_mem.mpr ?_
    intro r hr
    have hcur := h.current r hr
    rw [hnone] at hcur
    cases hcur
  refine { h with
    stored := rfl, fair := ?_, same := rfl, live := nofun, known := nofun, current := ?_
    idle := fun _ => h.idle hnone }
  · intro hadGood hmem
    rcases List.mem_append.mp hmem with hold | hnew
    · exact h.fair hadGood hold
    · exact List.mem_singleton.mp hnew
  · intro r hr
    change r ∈ s.refreshes at hr
    rw [hempty] at hr
    cases hr

@[simp] theorem sent_exchanged (issuer : Issuer) (t : Nat) (rotates : Bool) :
    (exchanged issuer t rotates).sent = issuer.sent := by
  cases rotates <;> rfl

theorem spent_exchanged {issuer : Issuer} {t u : Nat} {rotates : Bool} (h : u ∈ (exchanged issuer t rotates).spent) :
    (rotates = true ∧ u = t) ∨ u ∈ issuer.spent := by
  cases rotates with
  | false => exact .inr h
  | true =>
    rcases List.mem_cons.mp h with rfl | hold
    · exact .inl ⟨rfl, rfl⟩
    · exact .inr hold

theorem mem_exchanged {issuer : Issuer} {u : Nat} (t : Nat) (rotates : Bool) (h : u ∈ issuer.spent) :
    u ∈ (exchanged issuer t rotates).spent := by
  cases rotates with
  | false => exact h
  | true => exact List.mem_cons_of_mem _ h

theorem le_exchanged (issuer : Issuer) (t : Nat) (rotates : Bool) :
    issuer.issued ≤ (exchanged issuer t rotates).issued := by
  cases rotates with
  | false => exact Nat.le_refl _
  | true => exact Nat.le_succ _

/-- The provider may exchange a token that was presented once. -/
theorem inv_exchanged (h : Inv s) {t : Nat} {rotates : Bool} (ht : t ∈ s.issuer.sent)
    (hc : rotates = true → s.issuer.sent.count t ≤ 1) : Inv { s with issuer := exchanged s.issuer t rotates } := by
  refine { h with
    once := ?_, known := ?_, superseded := ?_, spent := ?_, sent := ?_, orphaned := ?_, flying := ?_, fresh := ?_ }
  · intro u hu
    show (exchanged s.issuer t rotates).sent.count u ≤ 1
    rw [sent_exchanged]
    rcases spent_exchanged hu with ⟨hrotates, rfl⟩ | hold
    · exact hc hrotates
    · exact h.once u hold
  · exact fun u hu => Nat.le_trans (h.known u hu) (le_exchanged ..)
  · intro u hu
    show u ∈ (exchanged s.issuer t rotates).sent
    rw [sent_exchanged]
    exact h.superseded u hu
  · intro u hu
    show u ∈ (exchanged s.issuer t rotates).sent
    rw [sent_exchanged]
    rcases spent_exchanged hu with ⟨-, rfl⟩ | hold
    · exact ht
    · exact h.spent u hold
  · show (exchanged s.issuer t rotates).Known (exchanged s.issuer t rotates).sent
    rw [sent_exchanged]
    exact h.sent.mono (le_exchanged ..)
  · intro u hu
    show u ∈ (exchanged s.issuer t rotates).sent
    rw [sent_exchanged]
    exact h.orphaned u hu
  · intro u
    show _ ≤ (exchanged s.issuer t rotates).sent.count u
    rw [sent_exchanged]
    exact h.flying u
  · intro r hr data hdata n hn
    obtain ⟨hnot, hle, hspent⟩ := h.fresh r hr data hdata n hn
    refine ⟨?_, Nat.le_trans hle (le_exchanged ..), mem_exchanged t rotates hspent⟩
    show n ∉ (exchanged s.issuer t rotates).sent
    rw [sent_exchanged]
    exact hnot

theorem map_answered {refreshes : List Refresh} {j : Nat} {r : Refresh} (h : refreshes[j]? = some r) (answer : Answer) :
    (refreshes.set j { r with answer := some answer }).map (·.presented) = refreshes.map (·.presented) := by
  obtain ⟨hj, rfl⟩ := List.getElem?_eq_some_iff.mp h
  rw [List.map_set]
  refine List.ext_getElem? ?_
  intro k
  rw [List.getElem?_set]
  split
  next hk =>
    subst hk
    rw [if_pos (by simpa using hj), List.getElem?_map, h]
    rfl
  next => rfl

/-- An answer brings no refresh token, or the next one for that presented. -/
theorem inv_answerWith (h : Inv s) {j t : Nat} {way : Way} (hj : s.refreshes[j]? = some ⟨t, way, none⟩)
    {answer : Answer}
    (ha : ∀ data, answer = .tokens data → ∀ n ∈ data.refreshToken,
      n ∉ s.issuer.sent ∧ n ≤ s.issuer.issued ∧ t ∈ s.issuer.spent) :
    Inv (answerWith j ⟨t, way, none⟩ answer s) := by
  refine { h with current := ?_, flying := ?_, fresh := ?_ }
  · intro r hr
    rcases List.mem_or_eq_of_mem_set hr with hold | rfl
    · exact h.current r hold
    · exact h.current ⟨t, way, none⟩ (List.mem_of_getElem? hj)
  · intro u
    show ((s.refreshes.set j _).map (·.presented)).count u ≤ _
    rw [map_answered hj]
    exact h.flying u
  · intro r hr data hdata n hn
    rcases List.mem_or_eq_of_mem_set hr with hold | rfl
    · exact h.fresh r hold data hdata n hn
    · exact ha data (Option.some.inj hdata) n hn

theorem inv_retire (h : Inv s) {t : Nat} (ht : t ∈ s.superseded) : Inv { s with retired := t :: s.retired } := by
  refine { h with retired := ?_ }
  intro u hu
  rcases List.mem_cons.mp hu with rfl | hold
  · exact ht
  · exact h.retired u hold

theorem inv_reload (h : Inv s) (due : Bool) :
    Inv (scheduleRefresh due { s with
      memory := s.storage, calls := [], refreshes := []
      orphans := s.orphans ++ (s.refreshes.filter fun r => r.answer.isNone).map (·.presented) }) := by
  have hmem := h.same
  refine { h with
    same := rfl, live := hmem ▸ h.live, known := hmem ▸ h.known, orphaned := ?_, current := nofun
    flying := fun _ => Nat.zero_le _, fresh := nofun, idle := nofun }
  intro t ht
  rcases List.mem_append.mp ht with hold | hnew
  · exact h.orphaned t hold
  · obtain ⟨r, hr, rfl⟩ := List.mem_map.mp hnew
    exact h.presented (List.mem_filter.mp hr).1

/-! ## Answers received -/

/-- A refresh that is over. -/
theorem inv_over (h : Inv s) (j : Nat) : Inv { s with refreshes := s.refreshes.eraseIdx j } := by
  refine { h with current := ?_, flying := ?_, fresh := ?_ }
  · exact fun r hr => h.current r (List.mem_of_mem_eraseIdx hr)
  · intro u
    exact Nat.le_trans (((List.eraseIdx_sublist _ _).map _).count_le u) (h.flying u)
  · exact fun r hr => h.fresh r (List.mem_of_mem_eraseIdx hr)

/-- What a scheduled refresh is answered is what there is. -/
theorem scheduled_nothing_new (h : Inv s) (t : Nat) {data : Response} (hw : Welcome s .scheduled (.tokens data)) :
    { receipt t data s with memory := update s.memory data } = s := by
  obtain ⟨htoken, hid, hrt⟩ := hw
  have hup : update s.storage data = s.storage := by
    unfold update
    rw [hrt, ← htoken]
    cases hdata : data.idToken with
    | none => rfl
    | some x =>
      rw [show (some x <|> s.storage.idToken) = s.storage.idToken from (hid x hdata).symm]
      rfl
  have hreceived : update s.received data = s.received := by
    rw [← h.stored, hup]
  have hmemory : update s.memory data = s.memory := by
    rw [h.same, hup]
  unfold receipt
  rw [hreceived, hmemory, hrt]
  rfl

/-- With an exchanged token there is one refresh under way. -/
theorem only_refresh (h : Inv s) {j : Nat} {r : Refresh} (hj : s.refreshes[j]? = some r)
    (hspent : r.presented ∈ s.issuer.spent) : s.refreshes.eraseIdx j = [] := by
  refine List.eq_nil_iff_forall_not_mem.mpr ?_
  intro r' hr'
  have hcur := h.current r (List.mem_of_getElem? hj)
  have hcur' := h.current r' (List.mem_of_mem_eraseIdx hr')
  rw [hcur] at hcur'
  have hone := h.once _ hspent
  have hfly := h.flying r.presented
  have hsplit : (s.refreshes.map (·.presented)).count r.presented =
      ((s.refreshes.eraseIdx j).map (·.presented)).count r.presented + 1 := by
    obtain ⟨hlt, rfl⟩ := List.getElem?_eq_some_iff.mp hj
    have hperm := (List.getElem_cons_eraseIdx_perm hlt).map (·.presented)
    rw [← hperm.count_eq, List.map_cons, List.count_cons_self]
  have hpos : 0 < ((s.refreshes.eraseIdx j).map (·.presented)).count r.presented := by
    refine List.count_pos_iff.mpr ?_
    rw [Option.some.inj hcur']
    exact List.mem_map_of_mem hr'
  omega

/-- The refresh of a call brings a refresh token in place of the one it presented. -/
theorem inv_renewed (h : Inv s) {j t : Nat} {way : Way} {data : Response}
    (hj : s.refreshes[j]? = some ⟨t, way, some (.tokens data)⟩) (hrt : data.refreshToken.isSome = true)
    (hid : s.storage.idToken.isSome = true → data.idToken.isSome = true) (due : Bool) :
    Inv (setToken data due (receipt t data { s with refreshes := s.refreshes.eraseIdx j })) := by
  obtain ⟨n, hn⟩ := Option.isSome_iff_exists.mp hrt
  have hmem := List.mem_of_getElem? hj
  obtain ⟨hnot, hle, hspent⟩ := h.fresh _ hmem data rfl n hn
  have hempty := only_refresh h hj hspent
  have hsent := h.presented hmem
  have hstored : (⟨some data.accessToken, data.idToken, data.refreshToken⟩ : Tokens) = update s.received data := by
    unfold update
    rw [hn, ← h.stored]
    cases hdata : data.idToken with
    | some x => rfl
    | none =>
      have hnone : s.storage.idToken = none := by
        cases hs : s.storage.idToken with
        | none => rfl
        | some x =>
          have hsome := hid (by rw [hs]; rfl)
          rw [hdata] at hsome
          cases hsome
      rw [hnone]
      rfl
  refine { h with
    stored := hstored, same := rfl, live := ?_, known := ?_, retired := ?_, superseded := ?_, current := ?_
    flying := ?_, fresh := ?_, idle := ?_ }
  · intro u hu
    obtain rfl : n = u := Option.some.inj (hn.symm.trans hu)
    show n ∉ if data.refreshToken.isSome = true then t :: s.superseded else s.superseded
    rw [if_pos hrt, List.mem_cons]
    rintro (rfl | hold)
    · exact hnot hsent
    · exact hnot (h.superseded n hold)
  · intro u hu
    obtain rfl : n = u := Option.some.inj (hn.symm.trans hu)
    exact hle
  · intro u hu
    show u ∈ if data.refreshToken.isSome = true then t :: s.superseded else s.superseded
    rw [if_pos hrt]
    exact List.mem_cons_of_mem _ (h.retired u hu)
  · intro u hu
    change u ∈ (if data.refreshToken.isSome = true then t :: s.superseded else s.superseded) at hu
    rw [if_pos hrt] at hu
    rcases List.mem_cons.mp hu with rfl | hold
    · exact hsent
    · exact h.superseded u hold
  · intro r hr
    change r ∈ s.refreshes.eraseIdx j at hr
    rw [hempty] at hr
    cases hr
  · intro u
    show ((s.refreshes.eraseIdx j).map (·.presented)).count u ≤ _
    rw [hempty]
    exact Nat.zero_le _
  · intro r hr
    change r ∈ s.refreshes.eraseIdx j at hr
    rw [hempty] at hr
    cases hr
  · intro hnone
    cases hn.symm.trans hnone

theorem inv_finish (h : Inv s) {j t : Nat} {way : Way} {answer : Answer} (due : Bool)
    (hj : s.refreshes[j]? = some ⟨t, way, some answer⟩) (hw : Welcome s way answer) :
    Inv (note s (finish t due { s with refreshes := s.refreshes.eraseIdx j } way answer)) := by
  have hover := inv_over h j
  cases way with
  | scheduled =>
    cases answer with
    | failed => exact inv_note_same hover rfl
    | tokens data =>
      have hsame := scheduled_nothing_new hover t hw
      show Inv (note s (scheduleRefresh due { receipt t data _ with memory := update _ data }))
      rw [hsame]
      exact inv_note_same (inv_timer hover _) rfl
  | call hadGood =>
    cases answer with
    | failed => exact hw.elim
    | tokens data =>
      refine inv_note (inv_renewed h hj hw.1 hw.2 due) ?_
      -- the one token held is that presented, which has its successor
      intro u hu hgood
      have hcur := h.current _ (List.mem_of_getElem? hj)
      rw [h.held_mem.mp hu] at hcur
      obtain rfl := Option.some.inj hcur
      obtain ⟨hsup, -⟩ := Bool.and_eq_true_iff.mp hgood
      have hin : u ∈ if data.refreshToken.isSome = true then u :: s.superseded else s.superseded := by
        rw [if_pos hw.1]
        exact List.mem_cons_self
      change (!(if data.refreshToken.isSome = true then u :: s.superseded else s.superseded).contains u) = true at hsup
      rw [List.contains_iff_mem.mpr hin] at hsup
      cases hsup

theorem inv_step {s' : State} (e : Event) (h : Inv s) (hc : Sound s e) (hs : machine.step s e = some s') : Inv s' := by
  obtain ⟨s'', hact, rfl⟩ := Option.map_eq_some_iff.mp hs
  cases e with
  | call =>
    cases hact
    exact inv_note_same (inv_call h) rfl
  | answered i =>
    change (if _ then _ else _) = _ at hact
    split at hact
    next =>
      cases hact
      exact inv_note_same (inv_calls h i) rfl
    next => cases hact
  | unauthorized i =>
    obtain ⟨hadGood, hi, rfl⟩ := Option.map_eq_some_iff.mp hact
    cases hrt : s.memory.refreshToken with
    | none =>
      obtain rfl := h.idle hrt hadGood (List.mem_of_getElem? hi)
      refine inv_note (inv_logout (inv_calls h i) hrt) ?_
      intro u hu
      rw [h.held_none hrt] at hu
      cases hu
    | some t => exact inv_note_same (inv_present (inv_calls h i) hc _) (held_present _)
  | fire =>
    change (if _ then _ else _) = _ at hact
    split at hact
    next =>
      cases hact
      exact inv_note_same (inv_present (inv_timer h false) hc _) (held_present _)
    next => cases hact
  | grant j accessToken idToken rotates =>
    simp only [act] at hact
    split at hact
    next t way hj =>
      split at hact
      next => cases hact
      next =>
        cases hact
        have hsent := h.presented (List.mem_of_getElem? hj)
        refine inv_note_same (inv_answerWith (inv_exchanged h hsent fun hrotates => hc hrotates _ hj) hj ?_) rfl
        intro data hdata n hn
        cases hdata
        cases rotates with
        | false => cases hn
        | true =>
          cases hn
          refine ⟨?_, Nat.le_refl _, List.mem_cons_self⟩
          intro hmem
          have hle : s.issuer.issued + 1 ≤ s.issuer.issued := h.sent _ hmem
          omega
    next => cases hact
  | refuse j =>
    simp only [act] at hact
    split at hact
    next t way hj =>
      split at hact
      next =>
        cases hact
        exact inv_note_same (inv_answerWith h hj nofun) rfl
      next => cases hact
    next => cases hact
  | fail j rotates =>
    simp only [act] at hact
    split at hact
    next t way hj =>
      split at hact
      next => cases hact
      next =>
        cases hact
        have hsent := h.presented (List.mem_of_getElem? hj)
        exact inv_note_same (inv_answerWith (inv_exchanged h hsent fun hrotates => hc hrotates _ hj) hj nofun) rfl
    next => cases hact
  | receive j due =>
    simp only [act] at hact
    split at hact
    next t way answer hj =>
      cases hact
      exact inv_finish h due hj (hc _ answer hj rfl)
    next => cases hact
  | reload due =>
    cases hact
    refine inv_note_same (inv_reload h due) ?_
    show s.storage.refreshToken.toList ++ _ = s.memory.refreshToken.toList ++ _
    rw [h.same]
    rfl
  | exchangeOrphan k =>
    simp only [act] at hact
    split at hact
    next t hk =>
      split at hact
      next => cases hact
      next =>
        cases hact
        have hsent := h.orphaned t (List.mem_of_getElem? hk)
        have hi : Inv { s with issuer := exchanged s.issuer t true } := inv_exchanged h hsent fun _ => hc t hk
        exact inv_note_same
          { hi with orphaned := fun u hu => hi.orphaned u (List.mem_of_mem_eraseIdx hu) } rfl
    next => cases hact
  | retire t =>
    change (if _ then _ else _) = _ at hact
    split at hact
    next ht =>
      cases hact
      exact inv_note_same (inv_retire h ht) rfl
    next => cases hact

/-! ## What a step that keeps the session met -/

theorem unexchanged_of_once (h : Inv s) {way : Way}
    (honce : ∀ t ∈ (present way s).issuer.spent, (present way s).issuer.sent.count t ≤ 1) : Unexchanged s := by
  intro t ht hspent
  have hrt : s.memory.refreshToken = some t := ht
  unfold present at honce
  rw [hrt] at honce
  have hcount : (t :: s.issuer.sent).count t ≤ 1 := honce t hspent
  have hpos := List.count_pos_iff.mpr (h.spent t hspent)
  rw [List.count_cons_self] at hcount
  omega

theorem welcome_of_survives (h : Inv s) {j t : Nat} {way : Way} {answer : Answer} {due : Bool}
    (hj : s.refreshes[j]? = some ⟨t, way, some answer⟩)
    (hs : Survives (note s (finish t due { s with refreshes := s.refreshes.eraseIdx j } way answer))) :
    Welcome s way answer := by
  have hmem := List.mem_of_getElem? hj
  have hcur : s.memory.refreshToken = some t := h.current _ hmem
  have hstorage : s.storage.refreshToken = some t := h.same ▸ hcur
  cases way with
  | scheduled =>
    cases answer with
    | failed => trivial
    | tokens data =>
      -- the storage is as it was, so it has what the answer brings
      have hstored : s.storage = update s.received data := hs.stored
      rw [← h.stored] at hstored
      have hrt : s.storage.refreshToken = (data.refreshToken <|> s.storage.refreshToken) :=
        congrArg Tokens.refreshToken hstored
      refine ⟨congrArg Tokens.token hstored, ?_, ?_⟩
      · intro x hx
        have hid : s.storage.idToken = (data.idToken <|> s.storage.idToken) := congrArg Tokens.idToken hstored
        rw [show data.idToken = some x from hx] at hid
        exact hid
      · cases hdata : data.refreshToken with
        | none => rfl
        | some n =>
          obtain ⟨hnot, -⟩ := h.fresh _ hmem data rfl n hdata
          rw [hdata, hstorage] at hrt
          obtain rfl : t = n := Option.some.inj hrt
          exact absurd (h.presented hmem) hnot
  | call hadGood =>
    cases answer with
    | failed =>
      -- the token presented is good, and let go of
      have hlost : t ∈ s.discarded ++ (held s).filter fun u =>
          good (logout hadGood { s with refreshes := s.refreshes.eraseIdx j }) u && !([] : List Nat).contains u := by
        refine List.mem_append_right _ (List.mem_filter.mpr ⟨h.held_mem.mpr hcur, ?_⟩)
        have hlive := h.live t hcur
        have hretired : t ∉ s.retired := fun hmem' => hlive (h.retired t hmem')
        show (!s.superseded.contains t && !s.retired.contains t && true) = true
        simp [hlive, hretired]
      have hkept : s.discarded ++ (held s).filter (fun u =>
          good (logout hadGood { s with refreshes := s.refreshes.eraseIdx j }) u && !([] : List Nat).contains u) = [] :=
        hs.kept
      rw [hkept] at hlost
      cases hlost
    | tokens data =>
      have hstored : (⟨some data.accessToken, data.idToken, data.refreshToken⟩ : Tokens) = update s.received data :=
        hs.stored
      rw [← h.stored] at hstored
      have hrt : data.refreshToken = (data.refreshToken <|> s.storage.refreshToken) :=
        congrArg Tokens.refreshToken hstored
      have hid : data.idToken = (data.idToken <|> s.storage.idToken) := congrArg Tokens.idToken hstored
      constructor
      · cases hdata : data.refreshToken with
        | some n => rfl
        | none =>
          rw [hdata, hstorage] at hrt
          cases hrt
      · intro hsome
        cases hdata : data.idToken with
        | some x => rfl
        | none =>
          rw [hdata] at hid
          rw [show s.storage.idToken = none from hid.symm] at hsome
          cases hsome

theorem sound_of_survives {s' : State} (e : Event) (h : Inv s) (hs : machine.step s e = some s')
    (hsurvives : Survives s') : Sound s e := by
  obtain ⟨s'', hact, rfl⟩ := Option.map_eq_some_iff.mp hs
  have honce : ∀ t ∈ s''.issuer.spent, s''.issuer.sent.count t ≤ 1 := hsurvives.once
  cases e with
  | unauthorized i =>
    obtain ⟨hadGood, hi, rfl⟩ := Option.map_eq_some_iff.mp hact
    cases hrt : s.memory.refreshToken with
    | none =>
      intro t ht
      cases hrt.symm.trans ht
    | some t =>
      simp only [hrt] at honce
      have hunexchanged : Unexchanged { s with calls := s.calls.eraseIdx i } :=
        unexchanged_of_once (inv_calls h i) honce
      exact hunexchanged
  | fire =>
    change (if _ then _ else _) = _ at hact
    split at hact
    next =>
      cases hact
      have hunexchanged : Unexchanged { s with timer := false } := unexchanged_of_once (inv_timer h false) honce
      exact hunexchanged
    next => cases hact
  | grant j accessToken idToken rotates =>
    rintro rfl r hr
    simp only [act] at hact
    split at hact
    next t way hj =>
      split at hact
      next => cases hact
      next =>
        cases hact
        obtain rfl := Option.some.inj (hj.symm.trans hr)
        exact honce t List.mem_cons_self
    next => cases hact
  | fail j rotates =>
    rintro rfl r hr
    simp only [act] at hact
    split at hact
    next t way hj =>
      split at hact
      next => cases hact
      next =>
        cases hact
        obtain rfl := Option.some.inj (hj.symm.trans hr)
        exact honce t List.mem_cons_self
    next => cases hact
  | exchangeOrphan k =>
    intro t ht
    simp only [act, ht] at hact
    split at hact
    next => cases hact
    next =>
      cases hact
      exact honce t List.mem_cons_self
  | receive j due =>
    intro r answer hr hanswer
    simp only [act] at hact
    split at hact
    next t way answer' hj =>
      cases hact
      obtain rfl := Option.some.inj (hj.symm.trans hr)
      obtain rfl := Option.some.inj hanswer
      exact welcome_of_survives h hj hsurvives
    next => cases hact
  | _ => trivial

end Steps

def loggedIn : State where
  memory := ⟨some "access-1", some "id-1", some 1⟩
  storage := ⟨some "access-1", some "id-1", some 1⟩
  timer := true
  calls := []
  refreshes := []
  orphans := []
  issuer := ⟨1, [], []⟩
  retired := []
  superseded := []
  received := ⟨some "access-1", some "id-1", some 1⟩
  discarded := []
  redirects := []

theorem loggedIn_init : machine.init loggedIn := by
  refine ⟨rfl, rfl, ?_, rfl, rfl, rfl, rfl, rfl, rfl, rfl, rfl, rfl⟩
  intro t ht
  cases ht
  exact Nat.le_refl 1

/-- A call was answered 401, and presents the refresh token. -/
def refreshing : State :=
  { loggedIn with issuer := ⟨1, [1], []⟩, refreshes := [⟨1, .call true, none⟩] }

def rotated : State :=
  { refreshing with
    issuer := ⟨2, [1], [1]⟩
    refreshes := [⟨1, .call true, some (.tokens ⟨"access-2", some "id-2", some 2⟩)⟩] }

end Errand.Frontend.Session

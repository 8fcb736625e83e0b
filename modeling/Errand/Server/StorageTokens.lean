import Errand.Lib.Dict
import Errand.Lib.Machine
import Errand.Lib.Rotation

/-
  Errand.Server.StorageTokens — the tokens of a storage provider
  (`refresh_token_if_needed` of `cloud_storage.py`; `refresh_token`, `callback`,
  `disconnect` of `integration_routes.py`; `_handle_oauth_tokens` of `cloud_client.py`).

  A refresh works on credentials it has loaded, sends their refresh token to the provider
  (itself, or through the cloud), and writes all of them over whatever row there is when the
  answer has come. Without an answer over the socket a refresh through the cloud calls the
  server's refresh endpoint, a refresh of its own on the row there is then, of which it
  learns the access token only. An authorization replaces the row; the direct callback keeps
  the stored refresh token if it has got none.

  Refreshes, authorizations and disconnects are any number, each in its steps between
  awaits, in any order, and may end between any two. The provider exchanges a refresh token
  once, for a new pair of the same account; its answer may be lost.

  Proved:
  - `storage_tokens_kept`: in every run in which a refresh loads only while none is in flight but callers of
    the endpoint, and a token not exchanged before, what a caller learns from the endpoint is
    not written, and an authorization is stored only while no refresh is in flight, no newer
    tokens are stored, no disconnect has come since, and any refresh token it keeps is the
    account's own: no older token replaces a newer one, the row's tokens are of the account
    last stored, a row there was authorized after the last disconnect, and no exchanged token
    is sent.
  - `a_rotated_token_lost`: a refresh that falls back to the endpoint puts the refresh token
    that it has exchanged back over the new one, and the next one sends it.
-/

namespace Errand.Server.StorageTokens

open Errand.Lib
open Errand.Lib.Rotation

/-- A token: its place in the order of issue, and the account it is for. -/
structure Token where
  serial : Nat
  account : Nat
  deriving DecidableEq, Repr

/-- The decrypted JSON. -/
structure Credentials where
  accessToken : Token
  refreshToken : Option Token
  /-- `user_email`, `user_name`, `granted_scopes`: the authorization they are of, known by
      its access token. -/
  authorization : Nat
  deriving DecidableEq, Repr

inductive Way where
  /-- With client credentials of the server's own. -/
  | direct
  /-- `_cloud_proxy_refresh`. -/
  | proxy
  /-- `POST /{provider}/refresh`, and the refresh that called it. -/
  | endpoint (caller : Option Nat)
  deriving DecidableEq, Repr

/-- How far a refresh is. -/
inductive Phase where
  | loaded (token : Token)
  | sent (token : Token)
  /-- Calling the server's refresh endpoint. -/
  | waiting
  /-- The tokens are in the credentials; whether they came from the endpoint. -/
  | brought (fallback : Bool)
  /-- The row has been selected; whether there was one. -/
  | looked (fallback found : Bool)
  deriving DecidableEq, Repr

structure Refresh where
  way : Way
  credentials : Credentials
  phase : Phase
  deriving DecidableEq, Repr

structure Authorization where
  token : Token
  refreshToken : Option Token
  deriving DecidableEq, Repr

structure St where
  row : Option Credentials
  issuer : Issuer
  refreshes : List (Nat × Refresh)
  authorizations : List (Nat × Authorization)
  /-- The access tokens stored so far, and the refresh tokens, the last one first. -/
  stored : List Nat
  storedRefresh : List Nat
  /-- The account of the authorization stored last. -/
  account : Nat
  /-- How many tokens were issued at the last disconnect. -/
  deleted : Nat
  /-- A refresh token was sent that had been exchanged. -/
  late : Bool
  deriving DecidableEq, Repr

def start : St := ⟨none, .start, [], [], [], [], 0, 0, false⟩

inductive Event where
  | load (i : Nat) (way : Way)
  | send (i : Nat)
  /-- No socket: the endpoint is called at once. -/
  | fallBack (i : Nat)
  | grant (i : Nat)
  /-- No answer, or an exception; the provider may have exchanged the token. -/
  | fail (i : Nat) (spent : Bool)
  | look (i : Nat)
  | write (i : Nat)
  | cancel (i : Nat)
  /-- The code exchange of the callback, or `oauth_tokens`. -/
  | authorize (j account : Nat) (refreshable : Bool)
  /-- The callback has no refresh token and loads the stored one. -/
  | keep (j : Nat)
  | store (j : Nat)
  | drop (j : Nat)
  | disconnect
  deriving DecidableEq, Repr

def set (i : Nat) (f : Refresh) (s : St) : St := { s with refreshes := Dict.set s.refreshes i f }

def finish (i : Nat) (s : St) : St := { s with refreshes := Dict.pop s.refreshes i }

/-- The refresh that called the endpoint is waiting for it. -/
def called (way : Way) (s : St) : Bool :=
  match way with
  | .endpoint (some p) => (Dict.get? s.refreshes p).any fun f => f.phase = .waiting
  | _ => true

/-- A refresh is over; the endpoint answers with the access token. -/
def answer (i : Nat) (f : Refresh) (s : St) : St :=
  let s := finish i s
  match f.way with
  | .endpoint (some p) =>
    match Dict.get? s.refreshes p with
    | some ⟨way, credentials, .waiting⟩ =>
      set p ⟨way, { credentials with accessToken := f.credentials.accessToken }, .brought true⟩ s
    | _ => s
  | _ => s

/-- Without tokens from the socket the proxy turns to the endpoint; the others give up. -/
def giveUp (i : Nat) (f : Refresh) (s : St) : St :=
  if f.way = .proxy then set i { f with phase := .waiting } s else finish i s

def put (data : Credentials) (s : St) : St :=
  { s with
    row := some data
    stored := data.accessToken.serial :: s.stored
    storedRefresh := (data.refreshToken.map Token.serial).toList ++ s.storedRefresh }

/-- The commit behind the second select. It raises if the row has gone in between. -/
def write (i : Nat) (f : Refresh) (fallback found : Bool) (s : St) : St :=
  if found then
    match s.row with
    | some _ => answer i f (put f.credentials s)
    | none => if fallback then finish i s else giveUp i f s
  else answer i f s

def store (a : Authorization) (s : St) : St :=
  { put ⟨a.token, a.refreshToken, a.token.serial⟩ s with account := a.token.account }

def step (s : St) : Event → Option St
  | .load i way =>
    if Dict.get? s.refreshes i = none ∧ called way s then
      s.row.bind fun c => c.refreshToken.map fun token => set i ⟨way, c, .loaded token⟩ s
    else none
  | .send i =>
    match Dict.get? s.refreshes i with
    | some ⟨way, c, .loaded token⟩ =>
      some (set i ⟨way, c, .sent token⟩
        { s with issuer := s.issuer.send token.serial, late := s.late || decide (token.serial ∈ s.issuer.spent) })
    | _ => none
  | .fallBack i =>
    match Dict.get? s.refreshes i with
    | some ⟨.proxy, c, .loaded _⟩ => some (set i ⟨.proxy, c, .waiting⟩ s)
    | _ => none
  | .grant i =>
    match Dict.get? s.refreshes i with
    | some ⟨way, c, .sent token⟩ =>
      if token.serial ∈ s.issuer.spent then none
      else
        let new : Token := ⟨s.issuer.next, token.account⟩
        some (set i ⟨way, { c with accessToken := new, refreshToken := some new }, .brought false⟩
          { s with issuer := s.issuer.exchange token.serial })
    | _ => none
  | .fail i spent =>
    match Dict.get? s.refreshes i with
    | some ⟨way, c, .sent token⟩ =>
      some (giveUp i ⟨way, c, .sent token⟩ (if spent then { s with issuer := s.issuer.spend token.serial } else s))
    | some _ => some (finish i s)
    | none => none
  | .look i =>
    match Dict.get? s.refreshes i with
    | some ⟨way, c, .brought fallback⟩ => some (set i ⟨way, c, .looked fallback s.row.isSome⟩ s)
    | _ => none
  | .write i =>
    match Dict.get? s.refreshes i with
    | some ⟨way, c, .looked fallback found⟩ => some (write i ⟨way, c, .looked fallback found⟩ fallback found s)
    | _ => none
  | .cancel i => if (Dict.get? s.refreshes i).isSome then some (finish i s) else none
  | .authorize j account refreshable =>
    if Dict.get? s.authorizations j = none then
      let new : Token := ⟨s.issuer.next, account⟩
      some { s with
        issuer := s.issuer.issue
        authorizations := Dict.set s.authorizations j ⟨new, if refreshable then some new else none⟩ }
    else none
  | .keep j =>
    match Dict.get? s.authorizations j with
    | some ⟨token, none⟩ =>
      some { s with
        authorizations := Dict.set s.authorizations j ⟨token, s.row.bind Credentials.refreshToken⟩ }
    | _ => none
  | .store j =>
    (Dict.get? s.authorizations j).map fun a => store a { s with authorizations := Dict.pop s.authorizations j }
  | .drop j =>
    if (Dict.get? s.authorizations j).isSome then
      some { s with authorizations := Dict.pop s.authorizations j }
    else none
  | .disconnect => some { s with row := none, deleted := s.issuer.issued }

def machine : Machine St Event := ⟨fun s => s = start, step⟩

/-- What the tokens are to be, whatever the order of the steps. -/
structure Kept (s : St) : Prop where
  forward : s.stored.Pairwise (· > ·)
  forwardRefresh : s.storedRefresh.Pairwise (· ≥ ·)
  current : ∀ c, s.row = some c → s.stored.head? = some c.accessToken.serial ∧
    ∀ r, c.refreshToken = some r → s.storedRefresh.head? = some r.serial
  owned : ∀ c, s.row = some c → c.accessToken.account = s.account ∧
    ∀ r, c.refreshToken = some r → r.account = s.account
  gone : ∀ c, s.row = some c → s.deleted < c.authorization
  unspent : s.late = false

/-- A caller of the endpoint: what it learns there is not to be written. -/
def Refresh.idle (f : Refresh) : Bool :=
  match f.phase with
  | .waiting => true
  | .brought fallback => fallback
  | .looked fallback _ => fallback
  | _ => false

def Idle (s : St) : Prop := ∀ i f, Dict.get? s.refreshes i = some f → f.idle = true

/-- A refresh begins alone, with a token that is good; what comes from the endpoint is not
    written; an authorization is stored while no refresh is in flight, before newer tokens
    and before a disconnect, with no token of another account. -/
def Alone (s : St) : Event → Prop
  | .load _ _ => Idle s ∧ ∀ c, s.row = some c → ∀ r, c.refreshToken = some r → r.serial ∉ s.issuer.spent
  | .write i => ∀ f, Dict.get? s.refreshes i = some f → f.phase = .looked true true → s.row = none
  | .store j => ∀ a, Dict.get? s.authorizations j = some a → Idle s ∧ Newer s.stored a.token.serial ∧
      s.deleted < a.token.serial ∧
      ∀ r, a.refreshToken = some r → (∀ u ∈ s.storedRefresh, u ≤ r.serial) ∧ r.account = a.token.account
  | _ => True

/-! ## The invariant -/

structure RefreshInv (s : St) (f : Refresh) : Prop where
  loaded : ∀ t, f.phase = .loaded t → t.serial ∉ s.issuer.spent
  token : ∀ t, f.phase = .loaded t ∨ f.phase = .sent t →
    f.credentials.refreshToken = some t ∧ ∀ c, s.row = some c → c = f.credentials
  brought : f.phase = .brought false ∨ f.phase = .looked false true →
    Newer s.stored f.credentials.accessToken.serial ∧ f.credentials.accessToken.serial ≤ s.issuer.issued ∧
      (∃ r, f.credentials.refreshToken = some r ∧ Newer s.storedRefresh r.serial ∧ r.serial ≤ s.issuer.issued ∧
        r.account = f.credentials.accessToken.account) ∧
      ∀ c, s.row = some c → f.credentials.accessToken.account = s.account ∧ s.deleted < f.credentials.authorization

structure Inv (s : St) : Prop where
  kept : Kept s
  sole : ∀ i j f g, Dict.get? s.refreshes i = some f → Dict.get? s.refreshes j = some g → f.idle = false →
    g.idle = false → i = j
  refreshes : ∀ i f, Dict.get? s.refreshes i = some f → f.idle = false → RefreshInv s f
  stored_known : s.issuer.Known s.stored
  refresh_known : s.issuer.Known s.storedRefresh
  authorizations : ∀ item ∈ s.authorizations, item.2.token.serial ≤ s.issuer.issued ∧
    ∀ r, item.2.refreshToken = some r → r.serial ≤ s.issuer.issued

theorem start_inv : Inv start := by
  have hnone : ∀ i f, Dict.get? start.refreshes i ≠ some f := by
    intro i f h
    cases h
  refine ⟨⟨.nil, .nil, nofun, nofun, nofun, rfl⟩, ?_, ?_, nofun, nofun, nofun⟩
  · intro i j f g hf
    exact absurd hf (hnone i f)
  · intro i f hf
    exact absurd hf (hnone i f)

/-- A refresh that is not idle is the only one that is not. -/
theorem Inv.others_idle {s : St} {i j : Nat} {f g : Refresh} (h : Inv s) (hf : Dict.get? s.refreshes i = some f)
    (hidle : f.idle = false) (hg : Dict.get? s.refreshes j = some g) (hij : i ≠ j) : g.idle = true := by
  cases hgi : g.idle with
  | true => rfl
  | false => exact absurd (h.sole i j f g hf hg hidle hgi) hij

/-- A refresh moves on: where it is not idle afterwards, no other one is. -/
theorem set_inv {s : St} {i : Nat} {f : Refresh} (h : Inv s)
    (halone : f.idle = false → ∀ j g, Dict.get? s.refreshes j = some g → i ≠ j → g.idle = true)
    (hf : f.idle = false → RefreshInv s f) : Inv (set i f s) := by
  refine ⟨⟨h.kept.forward, h.kept.forwardRefresh, h.kept.current, h.kept.owned, h.kept.gone, h.kept.unspent⟩, ?_, ?_,
    h.stored_known, h.refresh_known, h.authorizations⟩
  · intro j k g g' hj hk hg hg'
    rcases Dict.get?_set_cases hj with ⟨rfl, rfl⟩ | ⟨hij, hj⟩
    · rcases Dict.get?_set_cases hk with ⟨rfl, -⟩ | ⟨hik, hk⟩
      · rfl
      · rw [halone hg k g' hk hik] at hg'
        cases hg'
    · rcases Dict.get?_set_cases hk with ⟨rfl, rfl⟩ | ⟨-, hk⟩
      · rw [halone hg' j g hj hij] at hg
        cases hg
      · exact h.sole j k g g' hj hk hg hg'
  · intro j g hj hg
    have hg' : RefreshInv s g := by
      rcases Dict.get?_set_cases hj with ⟨-, rfl⟩ | ⟨-, hj⟩
      · exact hf hg
      · exact h.refreshes j g hj hg
    exact ⟨hg'.loaded, hg'.token, hg'.brought⟩

theorem finish_inv {s : St} (i : Nat) (h : Inv s) : Inv (finish i s) := by
  have hsub : ∀ j g, Dict.get? (finish i s).refreshes j = some g → Dict.get? s.refreshes j = some g := by
    intro j g hj
    exact (Dict.get?_pop_some hj).2
  refine ⟨⟨h.kept.forward, h.kept.forwardRefresh, h.kept.current, h.kept.owned, h.kept.gone, h.kept.unspent⟩, ?_, ?_,
    h.stored_known, h.refresh_known, h.authorizations⟩
  · intro j k g g' hj hk
    exact h.sole j k g g' (hsub j g hj) (hsub k g' hk)
  · intro j g hj hg
    have hg' := h.refreshes j g (hsub j g hj) hg
    exact ⟨hg'.loaded, hg'.token, hg'.brought⟩

theorem finish_idle {s : St} {i : Nat} {f : Refresh} (h : Inv s) (hget : Dict.get? s.refreshes i = some f)
    (hidle : f.idle = false) : Idle (finish i s) := by
  intro j g hj
  obtain ⟨hij, hj⟩ := Dict.get?_pop_some hj
  exact h.others_idle hget hidle hj hij

theorem giveUp_inv {s : St} {i : Nat} (f : Refresh) (h : Inv s) : Inv (giveUp i f s) := by
  unfold giveUp
  split
  · exact set_inv h nofun nofun
  · exact finish_inv i h

theorem answer_inv {s : St} {i : Nat} (f : Refresh) (h : Inv (finish i s)) : Inv (answer i f s) := by
  unfold answer
  dsimp only
  split
  · split
    · exact set_inv h nofun nofun
    · exact h
  · exact h

/-- The provider issues a pair, or exchanges a token, while none that is loaded waits to be sent. -/
theorem Inv.issuer {s : St} {o : Issuer} (h : Inv s) (hissued : s.issuer.issued ≤ o.issued)
    (hspent : ∀ i f t, Dict.get? s.refreshes i = some f → f.phase = .loaded t → t.serial ∉ o.spent) :
    Inv { s with issuer := o } := by
  refine ⟨⟨h.kept.forward, h.kept.forwardRefresh, h.kept.current, h.kept.owned, h.kept.gone, h.kept.unspent⟩, h.sole, ?_,
    h.stored_known.mono hissued, h.refresh_known.mono hissued, ?_⟩
  · intro i f hget hf
    have hr := h.refreshes i f hget hf
    refine ⟨fun t ht => hspent i f t hget ht, hr.token, ?_⟩
    intro hphase
    obtain ⟨hnewer, hle, ⟨r, hr, hrnewer, hrle, haccount⟩, hrow⟩ := hr.brought hphase
    exact ⟨hnewer, Nat.le_trans hle hissued, ⟨r, hr, hrnewer, Nat.le_trans hrle hissued, haccount⟩, hrow⟩
  · intro item hitem
    obtain ⟨hle, hrefresh⟩ := h.authorizations item hitem
    exact ⟨Nat.le_trans hle hissued, fun r hr => Nat.le_trans (hrefresh r hr) hissued⟩

/-- While a token is at the provider, no other waits to be sent. -/
theorem Inv.none_loaded {s : St} {i : Nat} {f : Refresh} {t : Token} (h : Inv s)
    (hget : Dict.get? s.refreshes i = some f) (hsent : f.phase = .sent t) {j : Nat} {g : Refresh} {u : Token}
    (hg : Dict.get? s.refreshes j = some g) : g.phase ≠ .loaded u := by
  intro hloaded
  have hf : f.idle = false := by
    unfold Refresh.idle
    rw [hsent]
  have hgi : g.idle = false := by
    unfold Refresh.idle
    rw [hloaded]
  have hij := h.sole i j f g hget hg hf hgi
  subst hij
  rw [hget] at hg
  cases hg
  rw [hsent] at hloaded
  cases hloaded

/-! ## One lemma a step -/

theorem load_inv {s : St} {i : Nat} {way : Way} {c : Credentials} {t : Token} (h : Inv s) (hc : Alone s (.load i way))
    (hrow : s.row = some c) (htoken : c.refreshToken = some t) : Inv (set i ⟨way, c, .loaded t⟩ s) := by
  obtain ⟨hidle, hgood⟩ := hc
  refine set_inv h (fun _ j g hg _ => hidle j g hg) fun _ => ⟨?_, ?_, nofun⟩
  · intro u hu
    cases hu
    exact hgood c hrow _ htoken
  · intro u hu
    rcases hu with hu | hu
    · cases hu
      refine ⟨htoken, ?_⟩
      intro d hd
      rw [hrow] at hd
      cases hd
      rfl
    · cases hu

theorem send_inv {s : St} {i : Nat} {way : Way} {c : Credentials} {t : Token} (h : Inv s)
    (hget : Dict.get? s.refreshes i = some ⟨way, c, .loaded t⟩) :
    Inv (set i ⟨way, c, .sent t⟩
      { s with issuer := s.issuer.send t.serial, late := s.late || decide (t.serial ∈ s.issuer.spent) }) := by
  have hr := h.refreshes i _ hget rfl
  have hunspent : (s.late || decide (t.serial ∈ s.issuer.spent)) = false := by
    rw [h.kept.unspent, decide_eq_false (hr.loaded t rfl)]
    rfl
  have hsent : Inv { s with issuer := s.issuer.send t.serial } :=
    h.issuer (Nat.le_refl _) fun j g u hj hu => (h.refreshes j g hj (by unfold Refresh.idle; rw [hu])).loaded u hu
  have hlate : Inv { s with
      issuer := s.issuer.send t.serial, late := s.late || decide (t.serial ∈ s.issuer.spent) } := by
    refine ⟨⟨h.kept.forward, h.kept.forwardRefresh, h.kept.current, h.kept.owned, h.kept.gone, hunspent⟩, h.sole, ?_,
      h.stored_known, h.refresh_known, h.authorizations⟩
    intro j g hj hg
    have hr := hsent.refreshes j g hj hg
    exact ⟨hr.loaded, hr.token, hr.brought⟩
  refine set_inv hlate (fun _ j g hj hij => h.others_idle hget rfl hj hij) fun _ => ⟨nofun, ?_, nofun⟩
  intro u hu
  rcases hu with hu | hu
  · cases hu
  · cases hu
    exact hr.token _ (.inl rfl)

theorem grant_inv {s : St} {i : Nat} {way : Way} {c : Credentials} {t : Token} (h : Inv s)
    (hget : Dict.get? s.refreshes i = some ⟨way, c, .sent t⟩) :
    Inv (set i ⟨way, { c with
        accessToken := ⟨s.issuer.next, t.account⟩, refreshToken := some ⟨s.issuer.next, t.account⟩ }, .brought false⟩
      { s with issuer := s.issuer.exchange t.serial }) := by
  obtain ⟨htoken, hrow⟩ := (h.refreshes i _ hget rfl).token t (.inr rfl)
  have hexchange : Inv { s with issuer := s.issuer.exchange t.serial } :=
    h.issuer (Nat.le_succ _) fun j g u hj hu => absurd hu (h.none_loaded hget rfl hj)
  refine set_inv hexchange (fun _ j g hj hij => h.others_idle hget rfl hj hij) fun _ => ⟨nofun, ?_, ?_⟩
  · intro u hu
    rcases hu with hu | hu <;> cases hu
  · intro _
    refine ⟨newer_issue h.stored_known, Nat.le_refl _, ⟨_, rfl, newer_issue h.refresh_known, Nat.le_refl _, rfl⟩, ?_⟩
    intro d hd
    have howned := h.kept.owned d hd
    have hgone := h.kept.gone d hd
    rw [hrow d hd] at howned hgone
    exact ⟨howned.2 t htoken, hgone⟩

theorem fail_inv {s : St} {i : Nat} {way : Way} {c : Credentials} {t : Token} (spent : Bool) (h : Inv s)
    (hget : Dict.get? s.refreshes i = some ⟨way, c, .sent t⟩) :
    Inv (giveUp i ⟨way, c, .sent t⟩ (if spent then { s with issuer := s.issuer.spend t.serial } else s)) := by
  refine giveUp_inv _ ?_
  split
  · exact h.issuer (Nat.le_refl _) fun j g u hj hu => absurd hu (h.none_loaded hget rfl hj)
  · exact h

/-- Credentials newer than all before, of the account last stored, while no refresh is in
    flight. -/
theorem put_inv {s : St} {data : Credentials} (account : Nat) (h : Inv s) (hidle : Idle s)
    (hnewer : Newer s.stored data.accessToken.serial) (hle : data.accessToken.serial ≤ s.issuer.issued)
    (haccount : data.accessToken.account = account) (hgone : s.deleted < data.authorization)
    (hrefresh : ∀ r, data.refreshToken = some r → (∀ u ∈ s.storedRefresh, u ≤ r.serial) ∧ r.serial ≤ s.issuer.issued ∧
      r.account = account) : Inv { put data s with account } := by
  have hstored : (data.refreshToken.map Token.serial).toList ++ s.storedRefresh =
      match data.refreshToken with
      | some r => r.serial :: s.storedRefresh
      | none => s.storedRefresh := by
    cases data.refreshToken <;> rfl
  refine ⟨⟨record_pairwise h.kept.forward hnewer, ?_, ?_, ?_, ?_, h.kept.unspent⟩, h.sole, ?_, h.stored_known.cons hle, ?_,
    h.authorizations⟩
  · show ((data.refreshToken.map Token.serial).toList ++ s.storedRefresh).Pairwise (· ≥ ·)
    rw [hstored]
    cases hr : data.refreshToken with
    | none => exact h.kept.forwardRefresh
    | some r => exact List.pairwise_cons.mpr ⟨(hrefresh r hr).1, h.kept.forwardRefresh⟩
  · intro c hc
    cases hc
    refine ⟨rfl, ?_⟩
    intro r hr
    show ((data.refreshToken.map Token.serial).toList ++ s.storedRefresh).head? = some r.serial
    rw [hr]
    rfl
  · intro c hc
    cases hc
    exact ⟨haccount, fun r hr => (hrefresh r hr).2.2⟩
  · intro c hc
    cases hc
    exact hgone
  · intro i f hget hf
    rw [hidle i f hget] at hf
    cases hf
  · show s.issuer.Known ((data.refreshToken.map Token.serial).toList ++ s.storedRefresh)
    rw [hstored]
    cases hr : data.refreshToken with
    | none => exact h.refresh_known
    | some r => exact h.refresh_known.cons (hrefresh r hr).2.1

theorem write_inv {s : St} {i : Nat} {way : Way} {c : Credentials} {fallback found : Bool} (h : Inv s)
    (hc : Alone s (.write i)) (hget : Dict.get? s.refreshes i = some ⟨way, c, .looked fallback found⟩) :
    Inv (write i ⟨way, c, .looked fallback found⟩ fallback found s) := by
  unfold write
  cases found with
  | false => exact answer_inv _ (finish_inv i h)
  | true =>
    rw [if_pos rfl]
    cases hrow : s.row with
    | none =>
      dsimp only
      split
      · exact finish_inv i h
      · exact giveUp_inv _ h
    | some d =>
      cases fallback with
      | true =>
        rw [hc _ hget rfl] at hrow
        cases hrow
      | false =>
        obtain ⟨hnewer, hle, ⟨r, hr, hrnewer, hrle, hsame⟩, hd⟩ := (h.refreshes i _ hget rfl).brought (.inr rfl)
        obtain ⟨haccount, hgone⟩ := hd d hrow
        refine answer_inv _ (put_inv s.account (finish_inv i h) (finish_idle h hget rfl) hnewer hle haccount hgone ?_)
        intro u hu
        rw [hr] at hu
        cases hu
        exact ⟨fun v hv => Nat.le_of_lt (hrnewer v hv), hrle, hsame.trans haccount⟩

/-- What an authorization does to its entry. -/
theorem Inv.setAuthorizations {s : St} {authorizations : List (Nat × Authorization)} (h : Inv s)
    (hnew : ∀ item ∈ authorizations, item.2.token.serial ≤ s.issuer.issued ∧
      ∀ r, item.2.refreshToken = some r → r.serial ≤ s.issuer.issued) : Inv { s with authorizations } := by
  refine ⟨⟨h.kept.forward, h.kept.forwardRefresh, h.kept.current, h.kept.owned, h.kept.gone, h.kept.unspent⟩, h.sole, ?_,
    h.stored_known, h.refresh_known, hnew⟩
  intro i f hget hf
  have hr := h.refreshes i f hget hf
  exact ⟨hr.loaded, hr.token, hr.brought⟩

theorem authorize_inv {s : St} (j account : Nat) (refreshable : Bool) (h : Inv s) :
    Inv { s with
      issuer := s.issuer.issue
      authorizations := Dict.set s.authorizations j
        ⟨⟨s.issuer.next, account⟩, if refreshable then some ⟨s.issuer.next, account⟩ else none⟩ } := by
  have hissue : Inv { s with issuer := s.issuer.issue } :=
    h.issuer (Nat.le_succ _) fun i f t hi ht => (h.refreshes i f hi (by unfold Refresh.idle; rw [ht])).loaded t ht
  refine hissue.setAuthorizations ?_
  intro item hitem
  rcases Dict.mem_set hitem with hitem | rfl
  · exact hissue.authorizations item hitem
  · refine ⟨Nat.le_refl _, ?_⟩
    intro r hr
    obtain ⟨-, hr⟩ := Option.ite_none_right_eq_some.mp hr
    cases hr
    exact Nat.le_refl _

/-- A stored refresh token is one that was issued. -/
theorem Inv.row_known {s : St} {r : Token} (h : Inv s) (hr : s.row.bind Credentials.refreshToken = some r) :
    r.serial ≤ s.issuer.issued := by
  obtain ⟨c, hc, hr⟩ := Option.bind_eq_some_iff.mp hr
  exact h.refresh_known _ (List.mem_of_head? ((h.kept.current c hc).2 r hr))

theorem keep_inv {s : St} {j : Nat} {t : Token} (h : Inv s) (hget : Dict.get? s.authorizations j = some ⟨t, none⟩) :
    Inv { s with authorizations := Dict.set s.authorizations j ⟨t, s.row.bind Credentials.refreshToken⟩ } := by
  refine h.setAuthorizations ?_
  intro item hitem
  rcases Dict.mem_set hitem with hitem | rfl
  · exact h.authorizations item hitem
  · exact ⟨(h.authorizations (j, ⟨t, none⟩) (Dict.mem_of_get? hget)).1, fun r hr => h.row_known hr⟩

theorem store_inv {s : St} {j : Nat} {a : Authorization} (h : Inv s) (hc : Alone s (.store j))
    (hget : Dict.get? s.authorizations j = some a) :
    Inv (store a { s with authorizations := Dict.pop s.authorizations j }) := by
  obtain ⟨hidle, hnewer, hgone, hrefresh⟩ := hc a hget
  obtain ⟨hle, hrle⟩ := h.authorizations (j, a) (Dict.mem_of_get? hget)
  have hpop : Inv { s with authorizations := Dict.pop s.authorizations j } :=
    h.setAuthorizations fun item hitem => h.authorizations item (Dict.mem_pop hitem)
  refine put_inv a.token.account hpop hidle hnewer hle rfl hgone ?_
  intro r hr
  obtain ⟨hnewest, haccount⟩ := hrefresh r hr
  exact ⟨hnewest, hrle r hr, haccount⟩

theorem disconnect_inv {s : St} (h : Inv s) : Inv { s with row := none, deleted := s.issuer.issued } := by
  refine ⟨⟨h.kept.forward, h.kept.forwardRefresh, nofun, nofun, nofun, h.kept.unspent⟩, h.sole, ?_, h.stored_known,
    h.refresh_known, h.authorizations⟩
  intro i f hget hf
  have hr := h.refreshes i f hget hf
  refine ⟨hr.loaded, ?_, ?_⟩
  · intro t ht
    exact ⟨(hr.token t ht).1, nofun⟩
  · intro hphase
    obtain ⟨hnewer, hle, hrefresh, -⟩ := hr.brought hphase
    exact ⟨hnewer, hle, hrefresh, nofun⟩

theorem step_inv {s s' : St} {e : Event} (h : Inv s) (hc : Alone s e) (hst : step s e = some s') : Inv s' := by
  cases e with
  | load i way =>
    obtain ⟨-, hst⟩ := Option.ite_none_right_eq_some.mp hst
    obtain ⟨c, hrow, hst⟩ := Option.bind_eq_some_iff.mp hst
    obtain ⟨t, htoken, hst⟩ := Option.map_eq_some_iff.mp hst
    subst hst
    exact load_inv h hc hrow htoken
  | send i =>
    simp only [step] at hst
    split at hst
    · rename_i hget
      cases hst
      exact send_inv h hget
    · cases hst
  | fallBack i =>
    simp only [step] at hst
    split at hst
    · cases hst
      exact set_inv h (by rintro ⟨⟩) (by rintro ⟨⟩)
    · cases hst
  | grant i =>
    simp only [step] at hst
    split at hst
    · rename_i hget
      obtain ⟨-, hst⟩ := Option.ite_none_left_eq_some.mp hst
      cases hst
      exact grant_inv h hget
    · cases hst
  | fail i spent =>
    simp only [step] at hst
    split at hst
    · rename_i hget
      cases hst
      exact fail_inv spent h hget
    · cases hst
      exact finish_inv i h
    · cases hst
  | look i =>
    simp only [step] at hst
    split at hst
    · rename_i way c fallback hget
      cases hst
      cases fallback with
      | true => exact set_inv h (by rintro ⟨⟩) (by rintro ⟨⟩)
      | false =>
        refine set_inv h (fun _ j g hj hij => h.others_idle hget rfl hj hij) fun _ => ⟨by rintro _ ⟨⟩, ?_, ?_⟩
        · intro t ht
          rcases ht with ht | ht <;> cases ht
        · intro _
          exact (h.refreshes i _ hget rfl).brought (.inl rfl)
    · cases hst
  | write i =>
    simp only [step] at hst
    split at hst
    · rename_i hget
      cases hst
      exact write_inv h hc hget
    · cases hst
  | cancel i =>
    obtain ⟨-, hst⟩ := Option.ite_none_right_eq_some.mp hst
    cases hst
    exact finish_inv i h
  | authorize j account refreshable =>
    obtain ⟨-, hst⟩ := Option.ite_none_right_eq_some.mp hst
    cases hst
    exact authorize_inv j account refreshable h
  | keep j =>
    simp only [step] at hst
    split at hst
    · rename_i hget
      cases hst
      exact keep_inv h hget
    · cases hst
  | store j =>
    obtain ⟨a, hget, hst⟩ := Option.map_eq_some_iff.mp hst
    subst hst
    exact store_inv h hc hget
  | drop j =>
    obtain ⟨-, hst⟩ := Option.ite_none_right_eq_some.mp hst
    cases hst
    exact h.setAuthorizations fun item hitem => h.authorizations item (Dict.mem_pop hitem)
  | disconnect =>
    cases hst
    exact disconnect_inv h

/-- A refresh without a socket calls the endpoint and writes what it learns; another one
    follows. -/
def throughTheEndpoint : List Event :=
  [.authorize 0 7 true, .store 0, .load 0 .proxy, .fallBack 0, .load 1 (.endpoint (some 0)), .send 1, .grant 1, .look 1,
    .write 1, .look 0, .write 0, .load 2 .proxy, .send 2]

/-- The row ends with the second access token and the first refresh token. -/
def lost : St :=
  let row : Credentials := ⟨⟨2, 7⟩, some ⟨1, 7⟩, 1⟩
  ⟨some row, ⟨2, [1, 1], [1]⟩, [(2, ⟨.proxy, row, .sent ⟨1, 7⟩⟩)], [], [2, 2, 1], [1, 2, 1], 7, 0, true⟩

/-- An authorization and a refresh of it. -/
def direct : List Event := [.authorize 0 7 true, .store 0, .load 0 .direct, .send 0, .grant 0, .look 0, .write 0]

end Errand.Server.StorageTokens

import Errand.Lib.Dict
import Errand.Lib.Machine
import Errand.Lib.Rotation

/-
  Errand.Server.CloudTokens — the tokens of the cloud connection
  (`_try_refresh_token`, `_handle_close`, `_run_token_refresh_loop` of `cloud_client.py`;
  `_store_cloud_credentials`, `cloud_auth_disconnect` of `main.py`).

  The loop, and a client whose socket was closed with 4002 or refused with 401, read the
  row, send its refresh token and write what comes back into the row they had read. A login
  reads whether there is a row, and updates or inserts it. The row's key is its platform's
  name: an update made late changes whatever row is there by then, and raises if there is
  none. A client whose refresh has failed marks the row and stops.

  Every await is a place where other tasks run: a refresh, a login and a disconnect are
  each several steps, in any order among any number of the others, and a refresh or a login
  may be cancelled between any two. The server exchanges each refresh token once, for new
  tokens; it may refuse, and its answer may be lost.

  Proved:
  - `cloud_tokens_kept`: in every run in which a refresh begins only while no other is in flight, with a
    token that no other has sent, and a login stores its tokens only while none is in flight,
    no newer ones are stored and no disconnect has come since they were issued: no token is
    sent twice, each credential stored is newer than all before it, no failed refresh marks
    or stops a client for a credential renewed since, and a row there is of a login after
    the last disconnect.
  - `two_refreshes`: the loop and a closed client refresh at once; the token goes out twice,
    and the loser marks the credential that the winner has renewed.
-/

namespace Errand.Server.CloudTokens

open Errand.Lib
open Errand.Lib.Rotation

inductive Status where
  | connected
  | error
  deriving DecidableEq, Repr

/-- The decrypted JSON. Tokens are known by their place in the order of issue. -/
structure Credentials where
  accessToken : Nat
  /-- None where the login brought none. -/
  refreshToken : Option Nat
  /-- `tenant_id` and `email`: the login they are of, known by the tokens it brought. -/
  tenant : Nat
  deriving DecidableEq, Repr

structure Row where
  data : Credentials
  status : Status
  deriving DecidableEq, Repr

/-- How far a refresh is. -/
inductive Phase where
  | loaded (credentials : Credentials) (token : Nat)
  | sent (credentials : Credentials) (token : Nat)
  | granted (credentials : Credentials) (token : Nat)
  | failed
  /-- `_set_credential_status` has selected the row: its status, if there was one. -/
  | marking (found : Option Status)
  | stopping
  deriving DecidableEq, Repr

structure Refresh where
  /-- Of a client that was closed or refused, not of the loop. -/
  close : Bool
  phase : Phase
  /-- How often credentials had been stored when it read them. -/
  renewals : Nat
  deriving DecidableEq, Repr

structure Login where
  token : Nat
  refreshToken : Option Nat
  /-- Whether there was a row, once it has looked. -/
  found : Option Bool
  deriving DecidableEq, Repr

structure St where
  row : Option Row
  issuer : Issuer
  /-- The rounds of the loop that have found the token due. -/
  checks : Nat
  refreshes : List (Nat × Refresh)
  logins : List (Nat × Login)
  /-- The disconnects that have found a row. -/
  disconnects : Nat
  /-- The access tokens stored so far, the last one first. -/
  stored : List Nat
  /-- How many tokens were issued when a disconnect last deleted the row. -/
  deleted : Nat
  /-- A failed refresh has marked, or stopped its client for, a credential that was renewed
      since it was read. -/
  wronged : Bool
  deriving DecidableEq, Repr

def start : St := ⟨none, .start, 0, [], [], 0, [], 0, false⟩

inductive Event where
  | check
  /-- The loop is cancelled behind its check. -/
  | leave
  | load (i : Nat) (close : Bool)
  | send (i : Nat)
  | grant (i : Nat)
  /-- Anything raises before the row is written; the server may have spent the token. -/
  | fail (i : Nat) (spent : Bool)
  | write (i : Nat)
  | select (i : Nat)
  | mark (i : Nat)
  | stop (i : Nat)
  | cancel (i : Nat)
  /-- The poll of a device authorization brings tokens. -/
  | approve (j : Nat) (refreshable : Bool)
  | look (j : Nat)
  | store (j : Nat)
  | supersede (j : Nat)
  | disconnect
  | delete
  deriving DecidableEq, Repr

def setPhase (i : Nat) (f : Refresh) (phase : Phase) (s : St) : St :=
  { s with refreshes := Dict.set s.refreshes i { f with phase } }

def finish (i : Nat) (s : St) : St := { s with refreshes := Dict.pop s.refreshes i }

/-- `_try_refresh_token` answers False: the loop leaves it at that. -/
def fails (i : Nat) (f : Refresh) (s : St) : St := if f.close then setPhase i f .failed s else finish i s

/-- Credentials stored: a row updated keeps its status in a refresh, a login sets it. -/
def put (data : Credentials) (status : Status) (s : St) : St :=
  { s with row := some ⟨data, status⟩, stored := data.accessToken :: s.stored }

def wrong (f : Refresh) (s : St) : St := { s with wronged := s.wronged || decide (f.renewals ≠ s.stored.length) }

/-- The rows of `_try_refresh_token` up to the request. -/
def load (i : Nat) (close : Bool) (s : St) : St :=
  let f : Refresh := ⟨close, .failed, s.stored.length⟩
  match s.row with
  | none => fails i f s
  | some row =>
    match row.data.refreshToken with
    | none => fails i f s
    | some token => setPhase i f (.loaded row.data token) s

/-- The commit of the refreshed credentials. -/
def write (i : Nat) (f : Refresh) (credentials : Credentials) (token : Nat) (s : St) : St :=
  match s.row with
  | some row => finish i (put { credentials with accessToken := token, refreshToken := some token } row.status s)
  | none => fails i f s

/-- The commit of `_set_credential_status`: a status that was read as it is to be is not written. -/
def mark (f : Refresh) (found : Option Status) (s : St) : St :=
  match found, s.row with
  | some .connected, some row => wrong f { s with row := some { row with status := .error } }
  | _, _ => s

def store (l : Login) (found : Bool) (s : St) : St :=
  if s.row.isSome = found then put ⟨l.token, l.refreshToken, l.token⟩ .connected s else s

def step (s : St) : Event → Option St
  | .check => if s.row.any (fun row => row.status = .connected) then some { s with checks := s.checks + 1 } else none
  | .leave => if 0 < s.checks then some { s with checks := s.checks - 1 } else none
  | .load i close =>
    if Dict.get? s.refreshes i = none then
      if close then some (load i close s)
      else if 0 < s.checks then some (load i close { s with checks := s.checks - 1 }) else none
    else none
  | .send i =>
    match Dict.get? s.refreshes i with
    | some ⟨close, .loaded c token, n⟩ =>
      some (setPhase i ⟨close, .loaded c token, n⟩ (.sent c token) { s with issuer := s.issuer.send token })
    | _ => none
  | .grant i =>
    match Dict.get? s.refreshes i with
    | some ⟨close, .sent c token, n⟩ =>
      if token ∈ s.issuer.spent then none
      else some (setPhase i ⟨close, .sent c token, n⟩ (.granted c s.issuer.next)
        { s with issuer := s.issuer.exchange token })
    | _ => none
  | .fail i spent =>
    match Dict.get? s.refreshes i with
    | some ⟨close, .loaded c token, n⟩ => some (fails i ⟨close, .loaded c token, n⟩ s)
    | some ⟨close, .sent c token, n⟩ =>
      some (fails i ⟨close, .sent c token, n⟩ (if spent then { s with issuer := s.issuer.spend token } else s))
    | some ⟨close, .granted c token, n⟩ => some (fails i ⟨close, .granted c token, n⟩ s)
    | _ => none
  | .write i =>
    match Dict.get? s.refreshes i with
    | some ⟨close, .granted c token, n⟩ => some (write i ⟨close, .granted c token, n⟩ c token s)
    | _ => none
  | .select i =>
    match Dict.get? s.refreshes i with
    | some ⟨close, .failed, n⟩ => some (setPhase i ⟨close, .failed, n⟩ (.marking (s.row.map Row.status)) s)
    | _ => none
  | .mark i =>
    match Dict.get? s.refreshes i with
    | some ⟨close, .marking found, n⟩ =>
      let f : Refresh := ⟨close, .marking found, n⟩
      some (setPhase i f .stopping (mark f found s))
    | _ => none
  | .stop i =>
    match Dict.get? s.refreshes i with
    | some ⟨close, .stopping, n⟩ => some (finish i (wrong ⟨close, .stopping, n⟩ s))
    | _ => none
  | .cancel i => if (Dict.get? s.refreshes i).isSome then some (finish i s) else none
  | .approve j refreshable =>
    if Dict.get? s.logins j = none then
      some { s with
        issuer := s.issuer.issue
        logins := Dict.set s.logins j ⟨s.issuer.next, if refreshable then some s.issuer.next else none, none⟩ }
    else none
  | .look j =>
    match Dict.get? s.logins j with
    | some ⟨token, refreshToken, none⟩ =>
      some { s with logins := Dict.set s.logins j ⟨token, refreshToken, some s.row.isSome⟩ }
    | _ => none
  | .store j =>
    match Dict.get? s.logins j with
    | some ⟨token, refreshToken, some found⟩ =>
      some (store ⟨token, refreshToken, some found⟩ found { s with logins := Dict.pop s.logins j })
    | _ => none
  | .supersede j =>
    if (Dict.get? s.logins j).isSome then some { s with logins := Dict.pop s.logins j } else none
  | .disconnect => if s.row.isSome then some { s with disconnects := s.disconnects + 1 } else none
  | .delete =>
    if 0 < s.disconnects then
      some { s with row := none, disconnects := s.disconnects - 1, deleted := s.issuer.issued }
    else none

def machine : Machine St Event := ⟨fun s => s = start, step⟩

/-- What the tokens are to be, whatever the order of the steps. -/
structure Kept (s : St) : Prop where
  once : s.issuer.sent.Nodup
  forward : s.stored.Pairwise (· > ·)
  current : ∀ row, s.row = some row → s.stored.head? = some row.data.accessToken ∧
    ∀ r, row.data.refreshToken = some r → r = row.data.accessToken
  fair : s.wronged = false
  gone : ∀ row, s.row = some row → s.deleted < row.data.tenant

/-- A refresh begins alone, with a token that none has sent; a login stores its tokens while
    no refresh is in flight, before newer ones and before a disconnect. -/
def Alone (s : St) : Event → Prop
  | .load _ _ =>
    s.refreshes = [] ∧ ∀ row, s.row = some row → ∀ r, row.data.refreshToken = some r → r ∉ s.issuer.sent
  | .store j => ∀ l, Dict.get? s.logins j = some l → s.refreshes = [] ∧ Newer s.stored l.token ∧ s.deleted < l.token
  | _ => True

def Phase.credentials : Phase → Option Credentials
  | .loaded c _ => some c
  | .sent c _ => some c
  | .granted c _ => some c
  | _ => none

structure RefreshInv (s : St) (f : Refresh) : Prop where
  renewals : f.renewals = s.stored.length
  loaded : ∀ c t, f.phase = .loaded c t → t ∉ s.issuer.sent ∧ t ≤ s.issuer.issued
  granted : ∀ c t, f.phase = .granted c t → Newer s.stored t ∧ t ≤ s.issuer.issued
  tenant : ∀ c, f.phase.credentials = some c → ∀ row, s.row = some row → row.data.tenant = c.tenant

structure Inv (s : St) : Prop where
  kept : Kept s
  alone : s.refreshes.length ≤ 1
  refreshes : ∀ item ∈ s.refreshes, RefreshInv s item.2
  stored_known : s.issuer.Known s.stored
  sent_known : s.issuer.Known s.issuer.sent
  logins : ∀ item ∈ s.logins, item.2.token ≤ s.issuer.issued ∧ ∀ r, item.2.refreshToken = some r → r = item.2.token

theorem start_inv : Inv start :=
  ⟨⟨List.nodup_nil, .nil, nofun, rfl, nofun⟩, Nat.zero_le _, nofun, nofun, nofun, nofun⟩

/-! ## The one refresh in flight -/

/-- No refresh is in flight but the `i`-th, if that is. -/
def Only (i : Nat) (s : St) : Prop := s.refreshes = [] ∨ ∃ f, s.refreshes = [(i, f)]

theorem Inv.only {s : St} {i : Nat} {f : Refresh} (h : Inv s) (hget : Dict.get? s.refreshes i = some f) :
    Only i s ∧ RefreshInv s f := by
  have hone := Dict.get?_eq_singleton h.alone hget
  exact ⟨.inr ⟨f, hone⟩, h.refreshes (i, f) (Dict.mem_of_get? hget)⟩

theorem set_only {s : St} {i : Nat} (h : Only i s) (f : Refresh) : Dict.set s.refreshes i f = [(i, f)] := by
  rcases h with h | ⟨g, h⟩
  · rw [h]
    rfl
  · rw [h, Dict.set_singleton]

theorem pop_only {s : St} {i : Nat} (h : Only i s) : Dict.pop s.refreshes i = [] := by
  rcases h with h | ⟨f, h⟩
  · rw [h]
    rfl
  · rw [h, Dict.pop_singleton]

theorem setPhase_inv {s : St} {i : Nat} {f : Refresh} {phase : Phase} (h : Inv s) (honly : Only i s)
    (hf : RefreshInv s { f with phase }) : Inv (setPhase i f phase s) := by
  have hrefreshes : (setPhase i f phase s).refreshes = [(i, { f with phase })] := set_only honly _
  refine ⟨⟨h.kept.once, h.kept.forward, h.kept.current, h.kept.fair, h.kept.gone⟩, ?_, ?_, h.stored_known, h.sent_known,
    h.logins⟩
  · rw [hrefreshes]
    exact Nat.le_refl 1
  · intro item hitem
    rw [hrefreshes] at hitem
    rw [List.mem_singleton.mp hitem]
    exact ⟨hf.renewals, hf.loaded, hf.granted, hf.tenant⟩

theorem finish_inv {s : St} (i : Nat) (h : Inv s) : Inv (finish i s) := by
  refine ⟨⟨h.kept.once, h.kept.forward, h.kept.current, h.kept.fair, h.kept.gone⟩, ?_, ?_, h.stored_known, h.sent_known,
    h.logins⟩
  · exact Nat.le_trans (Dict.length_pop_le s.refreshes i) h.alone
  · intro item hitem
    have hitem := h.refreshes item (Dict.mem_pop hitem)
    exact ⟨hitem.renewals, hitem.loaded, hitem.granted, hitem.tenant⟩

theorem fails_inv {s : St} {i : Nat} {f : Refresh} (h : Inv s) (honly : Only i s) (hf : f.renewals = s.stored.length) :
    Inv (fails i f s) := by
  unfold fails
  split
  · exact setPhase_inv h honly ⟨hf, nofun, nofun, nofun⟩
  · exact finish_inv i h

/-- The server issues or spends a token. -/
theorem Inv.issuer {s : St} {o : Issuer} (h : Inv s) (hissued : s.issuer.issued ≤ o.issued) (hsent : o.sent = s.issuer.sent) :
    Inv { s with issuer := o } := by
  refine ⟨⟨?_, h.kept.forward, h.kept.current, h.kept.fair, h.kept.gone⟩, h.alone, ?_, h.stored_known.mono hissued, ?_, ?_⟩
  · show o.sent.Nodup
    rw [hsent]
    exact h.kept.once
  · intro item hitem
    have hf := h.refreshes item hitem
    refine ⟨hf.renewals, ?_, ?_, hf.tenant⟩
    · intro c t hphase
      obtain ⟨hnew, hle⟩ := hf.loaded c t hphase
      exact ⟨hsent ▸ hnew, Nat.le_trans hle hissued⟩
    · intro c t hphase
      obtain ⟨hnew, hle⟩ := hf.granted c t hphase
      exact ⟨hnew, Nat.le_trans hle hissued⟩
  · show o.Known o.sent
    rw [hsent]
    exact h.sent_known.mono hissued
  · intro item hitem
    obtain ⟨hle, hsame⟩ := h.logins item hitem
    exact ⟨Nat.le_trans hle hissued, hsame⟩

/-- The stored refresh token is one that was issued. -/
theorem Inv.row_known {s : St} {row : Row} {t : Nat} (h : Inv s) (hrow : s.row = some row)
    (htoken : row.data.refreshToken = some t) : t ≤ s.issuer.issued := by
  obtain ⟨hhead, hsame⟩ := h.kept.current row hrow
  rw [hsame t htoken]
  exact h.stored_known _ (List.mem_of_head? hhead)

/-! ## One lemma a step -/

theorem load_inv {s : St} {i : Nat} {close : Bool} (h : Inv s) (hc : Alone s (.load i close)) : Inv (load i close s) := by
  obtain ⟨hnone, hfresh⟩ := hc
  have honly : Only i s := .inl hnone
  unfold load
  cases hrow : s.row with
  | none => exact fails_inv h honly rfl
  | some row =>
    dsimp only
    cases htoken : row.data.refreshToken with
    | none => exact fails_inv h honly rfl
    | some token =>
      refine setPhase_inv h honly ⟨rfl, ?_, nofun, ?_⟩
      · intro c t hphase
        cases hphase
        exact ⟨hfresh row hrow _ htoken, h.row_known hrow htoken⟩
      · intro c hphase row' hrow'
        cases hphase
        rw [hrow] at hrow'
        cases hrow'
        rfl

theorem send_inv {s : St} {i n : Nat} {close : Bool} {c : Credentials} {t : Nat} (h : Inv s)
    (hget : Dict.get? s.refreshes i = some ⟨close, .loaded c t, n⟩) :
    Inv (setPhase i ⟨close, .loaded c t, n⟩ (.sent c t) { s with issuer := s.issuer.send t }) := by
  obtain ⟨honly, hf⟩ := h.only hget
  obtain ⟨hfresh, hle⟩ := hf.loaded c t rfl
  have hrefreshes : Dict.set s.refreshes i ⟨close, .sent c t, n⟩ = [(i, ⟨close, .sent c t, n⟩)] := set_only honly _
  refine ⟨⟨List.nodup_cons.mpr ⟨hfresh, h.kept.once⟩, h.kept.forward, h.kept.current, h.kept.fair, h.kept.gone⟩, ?_, ?_,
    h.stored_known, h.sent_known.cons hle, h.logins⟩
  · show (Dict.set s.refreshes i _).length ≤ 1
    rw [hrefreshes]
    exact Nat.le_refl 1
  · intro item hitem
    have hitem : item ∈ Dict.set s.refreshes i ⟨close, .sent c t, n⟩ := hitem
    rw [hrefreshes] at hitem
    rw [List.mem_singleton.mp hitem]
    exact ⟨hf.renewals, nofun, nofun, hf.tenant⟩

theorem grant_inv {s : St} {i n : Nat} {close : Bool} {c : Credentials} {t : Nat} (h : Inv s)
    (hget : Dict.get? s.refreshes i = some ⟨close, .sent c t, n⟩) :
    Inv (setPhase i ⟨close, .sent c t, n⟩ (.granted c s.issuer.next) { s with issuer := s.issuer.exchange t }) := by
  obtain ⟨honly, hf⟩ := h.only hget
  refine setPhase_inv (h.issuer (Nat.le_succ _) rfl) honly ⟨hf.renewals, nofun, ?_, hf.tenant⟩
  intro c' t' hphase
  cases hphase
  exact ⟨newer_issue h.stored_known, Nat.le_refl _⟩

/-- Credentials newer than all before, while no refresh is in flight. -/
theorem put_inv {s : St} (data : Credentials) {status : Status} (h : Inv s) (hnone : s.refreshes = [])
    (hnewer : Newer s.stored data.accessToken) (hle : data.accessToken ≤ s.issuer.issued)
    (hsame : ∀ r, data.refreshToken = some r → r = data.accessToken) (hgone : s.deleted < data.tenant) :
    Inv (put data status s) := by
  refine ⟨⟨h.kept.once, record_pairwise h.kept.forward hnewer, ?_, h.kept.fair, ?_⟩, h.alone, ?_, h.stored_known.cons hle,
    h.sent_known, h.logins⟩
  · intro row hrow
    cases hrow
    exact ⟨rfl, hsame⟩
  · intro row hrow
    cases hrow
    exact hgone
  · intro item hitem
    have hitem : item ∈ s.refreshes := hitem
    rw [hnone] at hitem
    cases hitem

theorem write_inv {s : St} {i n : Nat} {close : Bool} {c : Credentials} {t : Nat} (h : Inv s)
    (hget : Dict.get? s.refreshes i = some ⟨close, .granted c t, n⟩) :
    Inv (write i ⟨close, .granted c t, n⟩ c t s) := by
  obtain ⟨honly, hf⟩ := h.only hget
  obtain ⟨hnewer, hle⟩ := hf.granted c t rfl
  unfold write
  cases hrow : s.row with
  | none => exact fails_inv h honly hf.renewals
  | some row =>
    have hdone : Inv (finish i s) := finish_inv i h
    have hgone : s.deleted < c.tenant := by
      rw [← hf.tenant c rfl row hrow]
      exact h.kept.gone row hrow
    refine put_inv { c with accessToken := t, refreshToken := some t } hdone (pop_only honly) hnewer hle ?_ hgone
    intro r hr
    cases hr
    rfl

theorem wrong_inv {s : St} {f : Refresh} (h : Inv s) (hf : f.renewals = s.stored.length) : Inv (wrong f s) := by
  have hfair : (wrong f s).wronged = false := by
    show (s.wronged || decide (f.renewals ≠ s.stored.length)) = false
    rw [h.kept.fair, hf]
    simp
  refine ⟨⟨h.kept.once, h.kept.forward, h.kept.current, hfair, h.kept.gone⟩, h.alone, ?_, h.stored_known, h.sent_known,
    h.logins⟩
  intro item hitem
  have hg := h.refreshes item hitem
  exact ⟨hg.renewals, hg.loaded, hg.granted, hg.tenant⟩

/-- A row marked is the row there was, but for its status. -/
theorem status_inv {s : St} {row : Row} (status : Status) (h : Inv s) (hrow : s.row = some row) :
    Inv { s with row := some { row with status } } := by
  refine ⟨⟨h.kept.once, h.kept.forward, ?_, h.kept.fair, ?_⟩, h.alone, ?_, h.stored_known, h.sent_known, h.logins⟩
  · intro row' hrow'
    cases hrow'
    exact h.kept.current row hrow
  · intro row' hrow'
    cases hrow'
    exact h.kept.gone row hrow
  · intro item hitem
    have hf := h.refreshes item hitem
    refine ⟨hf.renewals, hf.loaded, hf.granted, ?_⟩
    intro c hc row' hrow'
    cases hrow'
    exact hf.tenant c hc row hrow

theorem mark_inv {s : St} {f : Refresh} (found : Option Status) (h : Inv s) (hf : f.renewals = s.stored.length) :
    Inv (mark f found s) := by
  unfold mark
  split
  · rename_i row hrow
    exact wrong_inv (status_inv .error h hrow) hf
  · exact h

theorem mark_frame (f : Refresh) (found : Option Status) (s : St) :
    (mark f found s).refreshes = s.refreshes ∧ (mark f found s).stored = s.stored := by
  unfold mark
  split <;> exact ⟨rfl, rfl⟩

/-- What a login does to its entry. -/
theorem Inv.setLogins {s : St} {logins : List (Nat × Login)} (h : Inv s)
    (hlogins : ∀ item ∈ logins, item.2.token ≤ s.issuer.issued ∧ ∀ r, item.2.refreshToken = some r → r = item.2.token) :
    Inv { s with logins } := by
  refine ⟨⟨h.kept.once, h.kept.forward, h.kept.current, h.kept.fair, h.kept.gone⟩, h.alone, ?_, h.stored_known, h.sent_known,
    hlogins⟩
  intro item hitem
  have hf := h.refreshes item hitem
  exact ⟨hf.renewals, hf.loaded, hf.granted, hf.tenant⟩

theorem approve_inv {s : St} (j : Nat) (refreshable : Bool) (h : Inv s) :
    Inv { s with
      issuer := s.issuer.issue
      logins := Dict.set s.logins j ⟨s.issuer.next, if refreshable then some s.issuer.next else none, none⟩ } := by
  have hissue : Inv { s with issuer := s.issuer.issue } := h.issuer (Nat.le_succ _) rfl
  refine hissue.setLogins ?_
  intro item hitem
  rcases Dict.mem_set hitem with hitem | rfl
  · exact hissue.logins item hitem
  · refine ⟨Nat.le_refl _, ?_⟩
    intro r hr
    obtain ⟨-, hr⟩ := Option.ite_none_right_eq_some.mp hr
    cases hr
    rfl

theorem store_inv {s : St} {j token : Nat} {refreshToken : Option Nat} {found : Bool} (h : Inv s)
    (hc : Alone s (.store j)) (hget : Dict.get? s.logins j = some ⟨token, refreshToken, some found⟩) :
    Inv (store ⟨token, refreshToken, some found⟩ found { s with logins := Dict.pop s.logins j }) := by
  obtain ⟨hnone, hnewer, hgone⟩ := hc _ hget
  obtain ⟨hle, hsame⟩ := h.logins _ (Dict.mem_of_get? hget)
  have hpop : Inv { s with logins := Dict.pop s.logins j } :=
    h.setLogins fun item hitem => h.logins item (Dict.mem_pop hitem)
  unfold store
  split
  · exact put_inv ⟨token, refreshToken, token⟩ hpop hnone hnewer hle hsame hgone
  · exact hpop

theorem delete_inv {s : St} (h : Inv s) (n : Nat) :
    Inv { s with row := none, disconnects := n, deleted := s.issuer.issued } := by
  refine ⟨⟨h.kept.once, h.kept.forward, nofun, h.kept.fair, nofun⟩, h.alone, ?_, h.stored_known, h.sent_known, h.logins⟩
  intro item hitem
  have hf := h.refreshes item hitem
  exact ⟨hf.renewals, hf.loaded, hf.granted, nofun⟩

/-- The counts of rounds and disconnects are no matter. -/
theorem Inv.counts {s : St} (h : Inv s) (checks disconnects : Nat) : Inv { s with checks, disconnects } := by
  refine ⟨⟨h.kept.once, h.kept.forward, h.kept.current, h.kept.fair, h.kept.gone⟩, h.alone, ?_, h.stored_known, h.sent_known,
    h.logins⟩
  intro item hitem
  have hf := h.refreshes item hitem
  exact ⟨hf.renewals, hf.loaded, hf.granted, hf.tenant⟩

theorem step_inv {s s' : St} {e : Event} (h : Inv s) (hc : Alone s e) (hst : step s e = some s') : Inv s' := by
  cases e with
  | check =>
    obtain ⟨-, hst⟩ := Option.ite_none_right_eq_some.mp hst
    cases hst
    exact h.counts _ _
  | leave =>
    obtain ⟨-, hst⟩ := Option.ite_none_right_eq_some.mp hst
    cases hst
    exact h.counts _ _
  | load i close =>
    obtain ⟨-, hst⟩ := Option.ite_none_right_eq_some.mp hst
    split at hst
    · cases hst
      exact load_inv h hc
    · obtain ⟨-, hst⟩ := Option.ite_none_right_eq_some.mp hst
      cases hst
      exact load_inv (h.counts (s.checks - 1) s.disconnects) hc
  | send i =>
    simp only [step] at hst
    split at hst
    · rename_i hget
      cases hst
      exact send_inv h hget
    · cases hst
  | grant i =>
    simp only [step] at hst
    split at hst
    · rename_i hget
      obtain ⟨-, hst⟩ := Option.ite_none_left_eq_some.mp hst
      cases hst
      exact grant_inv h hget
    · cases hst
  | fail i spent =>
    simp only [step] at hst
    split at hst
    · rename_i hget
      cases hst
      obtain ⟨honly, hf⟩ := h.only hget
      exact fails_inv h honly hf.renewals
    · rename_i hget
      cases hst
      obtain ⟨honly, hf⟩ := h.only hget
      split
      · exact fails_inv (h.issuer (Nat.le_refl _) rfl) honly hf.renewals
      · exact fails_inv h honly hf.renewals
    · rename_i hget
      cases hst
      obtain ⟨honly, hf⟩ := h.only hget
      exact fails_inv h honly hf.renewals
    · cases hst
  | write i =>
    simp only [step] at hst
    split at hst
    · rename_i hget
      cases hst
      exact write_inv h hget
    · cases hst
  | select i =>
    simp only [step] at hst
    split at hst
    · rename_i hget
      cases hst
      obtain ⟨honly, hf⟩ := h.only hget
      exact setPhase_inv h honly ⟨hf.renewals, by rintro _ _ ⟨⟩, by rintro _ _ ⟨⟩, by rintro _ ⟨⟩⟩
    · cases hst
  | mark i =>
    simp only [step] at hst
    split at hst
    · rename_i close found n hget
      cases hst
      obtain ⟨honly, hf⟩ := h.only hget
      obtain ⟨hrefreshes, hstored⟩ := mark_frame ⟨close, .marking found, n⟩ found s
      refine setPhase_inv (mark_inv found h hf.renewals) ?_ ⟨?_, by rintro _ _ ⟨⟩, by rintro _ _ ⟨⟩, by rintro _ ⟨⟩⟩
      · unfold Only
        rw [hrefreshes]
        exact honly
      · rw [hstored]
        exact hf.renewals
    · cases hst
  | stop i =>
    simp only [step] at hst
    split at hst
    · rename_i hget
      cases hst
      exact finish_inv i (wrong_inv h (h.only hget).2.renewals)
    · cases hst
  | cancel i =>
    obtain ⟨-, hst⟩ := Option.ite_none_right_eq_some.mp hst
    cases hst
    exact finish_inv i h
  | approve j refreshable =>
    obtain ⟨-, hst⟩ := Option.ite_none_right_eq_some.mp hst
    cases hst
    exact approve_inv j refreshable h
  | look j =>
    simp only [step] at hst
    split at hst
    · rename_i token refreshToken hget
      cases hst
      refine h.setLogins ?_
      intro item hitem
      rcases Dict.mem_set hitem with hitem | rfl
      · exact h.logins item hitem
      · exact h.logins (j, ⟨token, refreshToken, none⟩) (Dict.mem_of_get? hget)
    · cases hst
  | store j =>
    simp only [step] at hst
    split at hst
    · rename_i hget
      cases hst
      exact store_inv h hc hget
    · cases hst
  | supersede j =>
    obtain ⟨-, hst⟩ := Option.ite_none_right_eq_some.mp hst
    cases hst
    exact h.setLogins fun item hitem => h.logins item (Dict.mem_pop hitem)
  | disconnect =>
    obtain ⟨-, hst⟩ := Option.ite_none_right_eq_some.mp hst
    cases hst
    exact h.counts _ _
  | delete =>
    obtain ⟨-, hst⟩ := Option.ite_none_right_eq_some.mp hst
    cases hst
    exact delete_inv h _

/-- The loop and a closed client refresh at once. The client is refused. -/
def loopAndClose : List Event :=
  [.approve 0 true, .look 0, .store 0, .check, .load 0 false, .load 1 true, .send 0, .send 1, .grant 0, .fail 1 false,
    .write 0, .select 1, .mark 1, .stop 1]

/-- A login, and a refresh of the loop. -/
def loopAlone : List Event :=
  [.approve 0 true, .look 0, .store 0, .check, .load 0 false, .send 0, .grant 0, .write 0]

end Errand.Server.CloudTokens

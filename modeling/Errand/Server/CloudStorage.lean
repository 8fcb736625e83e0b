/-
  Errand.Server.CloudStorage — keeping a provider's OAuth tokens fresh
  (errand/cloud_storage.py).

  A refresh asks the provider's token endpoint when the server has client credentials of
  its own, and the cloud otherwise: through the WebSocket, or, where that brings nothing,
  through the server's own refresh endpoint. What comes back is put into the credentials
  and committed on the session the caller handed in, which ends the caller's transaction
  whether or not the commit raises.

  Proved:
  - `committed_iff`: a refresh commits exactly when the token is not fresh any more (or
    the refresh is forced), there is a refresh token, an access token comes back, and the
    credentials are still stored.
-/

namespace Errand.Server.CloudStorage

inductive Provider where
  | googleDrive
  | onedrive
  deriving DecidableEq, Repr

/-- The stored JSON: a missing key is what `get` makes of it. -/
structure Credentials where
  accessToken : String
  refreshToken : String
  expiresAt : Int
  deriving DecidableEq, Repr

/-- The JSON of a token response. -/
structure Tokens where
  accessToken : String
  expiresIn : Option Int
  refreshToken : Option String
  deriving DecidableEq, Repr

inductive Response where
  | raised
  | failed
  | json (t : Tokens)
  deriving DecidableEq, Repr

inductive CommitAnswer where
  | ok
  | raised (landed : Bool)
  deriving DecidableEq, Repr

/-- What a refresh finds around it. Times are whole seconds: the code compares the clock
    with whole seconds only. -/
structure Outside where
  now : Int
  clientId : String
  clientSecret : String
  /-- `ERRAND_MCP_URL`. -/
  mcpUrl : String
  endpoint : Response
  /-- What the local WebSocket brought, nothing if it is down or failed. -/
  webSocket : Option Tokens
  http : Response
  /-- The credentials' row is still there when the tokens come back. -/
  stored : Bool
  commit : CommitAnswer
  httpCommit : CommitAnswer
  deriving DecidableEq, Repr

/-- What became of a refresh: its answer, what it wrote, and whether it ended the
    session's transaction. -/
structure Refreshed where
  result : Option Credentials
  written : Option Credentials
  committed : Bool
  deriving DecidableEq, Repr

def refreshBufferSeconds : Int := 300

def getClientCredentials (o : Outside) : Option (String × String) :=
  if o.clientId.isEmpty || o.clientSecret.isEmpty then none else some (o.clientId, o.clientSecret)

def unchanged : Refreshed := ⟨none, none, false⟩

def withTokens (now : Int) (c : Credentials) (t : Tokens) : Credentials :=
  ⟨t.accessToken, t.refreshToken.getD c.refreshToken, now + t.expiresIn.getD 3600⟩

/-- Tokens put into the credentials, and those committed: `.error` when the commit raises. -/
def applyRefreshResult (now : Int) (stored : Bool) (commit : CommitAnswer) (c : Credentials) (t : Tokens) :
    Except Refreshed Refreshed :=
  if t.accessToken.isEmpty then .ok unchanged
  else
    let c := withTokens now c t
    if stored then
      match commit with
      | .ok => .ok ⟨some c, some c, true⟩
      | .raised landed => .error ⟨none, if landed then some c else none, true⟩
    else .ok ⟨some c, none, false⟩

/-- Both paths log a raising commit and answer None. -/
def caught : Except Refreshed Refreshed → Refreshed
  | .ok r => r
  | .error r => r

def directRefresh (o : Outside) (c : Credentials) : Refreshed :=
  match o.endpoint with
  | .raised => unchanged
  | .failed => unchanged
  | .json t => caught (applyRefreshResult o.now o.stored o.commit c t)

/-- The fallback of the cloud proxy: the server's refresh endpoint. -/
def httpRefresh (o : Outside) (c : Credentials) : Refreshed :=
  if o.mcpUrl.isEmpty then unchanged
  else
    match o.http with
    | .raised => unchanged
    | .failed => unchanged
    | .json t => caught (applyRefreshResult o.now o.stored o.httpCommit c t)

def cloudProxyRefresh (o : Outside) (c : Credentials) : Refreshed :=
  match o.webSocket with
  | none => httpRefresh o c
  | some t =>
    if t.accessToken.isEmpty then httpRefresh o c
    else
      match applyRefreshResult o.now o.stored o.commit c t with
      | .ok r => r
      | .error r =>
        -- the credentials were updated in place before the commit raised
        let h := httpRefresh o (withTokens o.now c t)
        ⟨h.result, h.written.or r.written, true⟩

def refreshTokenIfNeeded (o : Outside) (force : Bool) (c : Credentials) : Refreshed :=
  if !force && o.now < c.expiresAt - refreshBufferSeconds then ⟨some c, none, false⟩
  else if c.refreshToken.isEmpty then unchanged
  else
    match getClientCredentials o with
    | some _ => directRefresh o c
    | none => cloudProxyRefresh o c

/-! ## When a refresh commits -/

def Response.brings : Response → Bool
  | .json t => !t.accessToken.isEmpty
  | _ => false

/-- Whether an access token comes back. -/
def brings (o : Outside) : Bool :=
  match getClientCredentials o with
  | some _ => o.endpoint.brings
  | none => o.webSocket.any (fun t => !t.accessToken.isEmpty) || (!o.mcpUrl.isEmpty && o.http.brings)

/-- The stored token is due for a refresh, and one can be had and kept. -/
def refreshes (o : Outside) (force : Bool) (c : Credentials) : Bool :=
  (force || decide (c.expiresAt - refreshBufferSeconds ≤ o.now)) && !c.refreshToken.isEmpty && brings o && o.stored

theorem applyRefreshResult_committed (now : Int) (stored : Bool) (commit : CommitAnswer) (c : Credentials) (t : Tokens) :
    (caught (applyRefreshResult now stored commit c t)).committed = (!t.accessToken.isEmpty && stored) := by
  unfold applyRefreshResult
  split
  · rename_i h; simp [h, caught, unchanged]
  · rename_i h
    have h : t.accessToken.isEmpty = false := by simpa using h
    cases stored with
    | false => simp [caught, h]
    | true => cases commit <;> simp [caught, h]

theorem directRefresh_committed (o : Outside) (c : Credentials) :
    (directRefresh o c).committed = (o.endpoint.brings && o.stored) := by
  unfold directRefresh
  cases o.endpoint with
  | raised => rfl
  | failed => rfl
  | json t => exact applyRefreshResult_committed ..

theorem httpRefresh_committed (o : Outside) (c : Credentials) :
    (httpRefresh o c).committed = (!o.mcpUrl.isEmpty && o.http.brings && o.stored) := by
  unfold httpRefresh
  split
  · rename_i h; simp [h, unchanged]
  · rename_i h
    have h : o.mcpUrl.isEmpty = false := by simpa using h
    cases o.http with
    | raised => simp [Response.brings, unchanged]
    | failed => simp [Response.brings, unchanged]
    | json t => simp only [applyRefreshResult_committed, Response.brings, h, Bool.not_false, Bool.true_and]

theorem cloudProxyRefresh_committed (o : Outside) (c : Credentials) :
    (cloudProxyRefresh o c).committed =
      ((o.webSocket.any (fun t => !t.accessToken.isEmpty) || (!o.mcpUrl.isEmpty && o.http.brings)) && o.stored) := by
  unfold cloudProxyRefresh
  cases o.webSocket with
  | none => simp [httpRefresh_committed]
  | some t =>
    by_cases ht : t.accessToken.isEmpty = true
    · simp [ht, httpRefresh_committed]
    · have ht : t.accessToken.isEmpty = false := by simpa using ht
      have ha := applyRefreshResult_committed o.now o.stored o.commit c t
      simp only [ht, Bool.not_false, Bool.true_and] at ha
      simp only [ht, Bool.false_eq_true, if_false, Option.any_some, Bool.not_false, Bool.true_or, Bool.true_and]
      split
      · rename_i r hr; rw [hr] at ha; exact ha
      · rename_i r hr
        -- only a commit that was made can raise
        unfold applyRefreshResult at hr
        simp only [ht, Bool.false_eq_true, if_false] at hr
        cases hs : o.stored with
        | true => rfl
        | false => simp [hs] at hr

theorem committed_iff (o : Outside) (force : Bool) (c : Credentials) :
    (refreshTokenIfNeeded o force c).committed = refreshes o force c := by
  unfold refreshTokenIfNeeded refreshes brings
  by_cases hf : (!force && decide (o.now < c.expiresAt - refreshBufferSeconds)) = true
  · simp only [hf, if_true]
    simp only [Bool.and_eq_true, Bool.not_eq_true', decide_eq_true_eq] at hf
    have : ¬ c.expiresAt - refreshBufferSeconds ≤ o.now := by omega
    simp [hf.1, this]
  · have hd : (force || decide (c.expiresAt - refreshBufferSeconds ≤ o.now)) = true := by
      simp only [Bool.and_eq_true, Bool.not_eq_true', decide_eq_true_eq, not_and] at hf
      cases force with
      | true => rfl
      | false => simpa using hf rfl
    rw [if_neg hf, hd]
    cases hr : c.refreshToken.isEmpty with
    | true => simp [unchanged]
    | false =>
      cases getClientCredentials o with
      | some cc => simp [directRefresh_committed]
      | none => simp [cloudProxyRefresh_committed]

end Errand.Server.CloudStorage

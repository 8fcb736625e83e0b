import Errand.Server.RefreshAuth

/-
  Errand.Server.Integrations — the integration endpoints and the two token-refresh
  endpoints (errand/integration_routes.py, google_routes.py, onedrive_routes.py).

  A request is served at once, or starts a refresh: the stored refresh token goes out, to
  the provider or over the cloud's WebSocket, and the response is made of the answer and of
  the server as it is by then. Responses carry access tokens together with the provider
  they are for.

  Proved:
  - `handle_cases`: a request is served without an access token, or starts a refresh of a
    provider its sender is entitled to, or one through
    `/api/integrations/{provider}/refresh`, which asks nobody for a token.
  - `finish_tokens`: a refresh answers with a token of its own provider only.
-/

namespace Errand.Server.Integrations

open Errand.Server.Auth (HttpError Libs Config)
open Errand.Server.CloudStorage (Provider Credentials Tokens CommitAnswer Outside Refreshed withTokens
  refreshTokenIfNeeded)
open Errand.Server.RefreshAuth

/-- What else a row of stored credentials holds: whose they are, and for what. -/
structure Account where
  userEmail : String
  userName : String
  grantedScopes : List String
  deriving DecidableEq, Repr

structure Row where
  credentials : Credentials
  account : Account
  deriving DecidableEq, Repr

/-- The server between two requests. -/
structure Host where
  /-- The stored credentials of each provider, decrypted. -/
  rows : Provider → Option Row
  /-- A cloud credential is stored, with the status "connected". -/
  cloudAvailable : Bool
  /-- `is_connected()` and `get_ws()`. -/
  wsConnected : Bool
  ws : Bool
  /-- `get_client()`, and whether the client holds a socket. -/
  client : Option Bool
  valkey : Option Valkey
  cfg : Config
  /-- `MICROSOFT_TENANT_ID`, else "common". -/
  tenantId : String
  workspaceTtl : Nat

/-- A token response to a callback's code: the scopes are split already, what is missing
    has its default. -/
structure Exchanged where
  accessToken : String
  refreshToken : String
  expiresIn : Int
  scopes : List String
  deriving DecidableEq, Repr

inductive Exchange where
  | raised
  | failed
  | json (x : Exchanged)
  deriving DecidableEq, Repr

/-- What the rest of the world makes of one request. -/
structure Answers where
  now : Int
  valkeyRaises : Bool
  wsSendRaises : Bool
  /-- `secrets.token_urlsafe(32)`. -/
  state : String
  exchange : Exchange
  /-- Mail and name from the userinfo endpoint, empty where it brought nothing. -/
  userinfo : String × String
  /-- The token endpoint, the cloud's relay, the server's own refresh endpoint. -/
  endpoint : CloudStorage.Response
  relay : Option Tokens
  http : CloudStorage.Response
  commit : CommitAnswer
  httpCommit : CommitAnswer

/-- An access token and the provider whose account it opens. -/
structure AccessToken where
  provider : Provider
  text : String
  deriving DecidableEq, Repr

inductive Mode where
  | direct
  | cloud
  deriving DecidableEq, Repr

structure ProviderStatus where
  available : Bool
  connected : Bool
  mode : Option Mode
  mcpConfigured : Option Bool
  user : Option (String × String)
  /-- The granted scopes, and whether the user has to authorize again. -/
  scopes : Option (List String × Bool)
  deriving DecidableEq, Repr

inductive Response where
  | error (e : HttpError)
  /-- A redirect URL: what comes before the query, and the query. -/
  | redirect (url : String) (params : List (String × String))
  | popup (message : String) (error : Bool)
  | status (entries : List (Provider × ProviderStatus))
  | cloudStorageStatus (connected : Bool) (account : Option String)
  | googleWorkspaceStatus (connected : Bool) (email : Option String) (scopes : Option (List String))
  | ok
  | noContent
  | token (t : AccessToken) (expires : Int)

/-- The access tokens in a response. -/
def Response.tokens : Response → List AccessToken
  | .token t _ => [t]
  | _ => []

inductive Route where
  | authorize (provider : String)
  | callback (provider code error state : String)
  | disconnect (provider : String)
  | refresh (provider : String)
  | status
  | cloudStorageStatus
  | cloudStorageAuthorize
  | cloudStorageDisconnect
  | googleWorkspaceStatus
  | googleWorkspaceAuthorize
  | googleWorkspaceDisconnect
  | googleRefreshToken
  | onedriveRefreshToken
  deriving DecidableEq, Repr

structure Request where
  route : Route
  sender : Sender
  baseUrl : String
  deriving DecidableEq, Repr

/-! ## Providers -/

def internalName : Provider → String
  | .googleDrive => "google_drive"
  | .onedrive => "onedrive"

def toWireProvider : Provider → String
  | .googleDrive => "google_workspace"
  | .onedrive => "onedrive"

def getProvider (provider : String) : Except HttpError Provider :=
  if provider = "google_drive" then .ok .googleDrive
  else if provider = "onedrive" then .ok .onedrive
  else .error ⟨404, "Unknown provider: " ++ provider⟩

def googleWorkspaceScopes : List String :=
  ["openid", "https://www.googleapis.com/auth/userinfo.email", "https://www.googleapis.com/auth/userinfo.profile",
   "https://www.googleapis.com/auth/drive", "https://www.googleapis.com/auth/gmail.modify",
   "https://www.googleapis.com/auth/gmail.send", "https://www.googleapis.com/auth/calendar",
   "https://www.googleapis.com/auth/spreadsheets", "https://www.googleapis.com/auth/documents",
   "https://www.googleapis.com/auth/chat.messages", "https://www.googleapis.com/auth/tasks",
   "https://www.googleapis.com/auth/contacts"]

def requiredScopes : Provider → List String
  | .googleDrive => googleWorkspaceScopes
  | .onedrive => []

def scopes : Provider → String
  | .googleDrive => " ".intercalate googleWorkspaceScopes
  | .onedrive => "User.Read Files.ReadWrite.All offline_access"

def authorizeUrl (tenantId : String) : Provider → String
  | .googleDrive => "https://accounts.google.com/o/oauth2/v2/auth"
  | .onedrive => "https://login.microsoftonline.com/" ++ tenantId ++ "/oauth2/v2.0/authorize"

def extraAuthParams : Provider → List (String × String)
  | .googleDrive => [("access_type", "offline"), ("prompt", "consent")]
  | .onedrive => []

def clientIdEnv : Provider → String
  | .googleDrive => "GOOGLE_CLIENT_ID"
  | .onedrive => "MICROSOFT_CLIENT_ID"

def clientSecretEnv : Provider → String
  | .googleDrive => "GOOGLE_CLIENT_SECRET"
  | .onedrive => "MICROSOFT_CLIENT_SECRET"

namespace Host

variable (srv : Host)

def clientId (p : Provider) : String := srv.cfg.env (clientIdEnv p)

def clientSecret (p : Provider) : String := srv.cfg.env (clientSecretEnv p)

def hasLocalCredentials (p : Provider) : Bool := !(srv.clientId p).isEmpty && !(srv.clientSecret p).isEmpty

def hasMcpUrl : Provider → Bool
  | .googleDrive => true
  | .onedrive => !(srv.cfg.env "ONEDRIVE_MCP_URL").isEmpty

def providerAvailable (p : Provider) : Bool × Option Mode :=
  if !srv.hasMcpUrl p then (false, none)
  else if srv.hasLocalCredentials p then (true, some .direct)
  else if srv.cloudAvailable then (true, some .cloud)
  else (false, none)

def cloudServiceUrl : String :=
  ((srv.cfg.setting "cloud_service_url").filter fun v => !v.isEmpty).getD "https://errand.cloud"

/-- The cloud can be asked: the server is connected and its client has a socket. -/
def relays : Bool := srv.wsConnected && srv.client == some true

def setRow (p : Provider) (row : Option Row) : Host :=
  { srv with rows := fun q => if q = p then row else srv.rows q }

/-- A row written under a commit, and what the request answers if the commit raises. -/
def commitRow (p : Provider) (row : Option Row) (response : Response) : CommitAnswer → Response × Host
  | .ok => (response, srv.setRow p row)
  | .raised landed => (.error ⟨500, "Internal Server Error"⟩, if landed then srv.setRow p row else srv)

end Host

/-! ## Requests served at once -/

def internalError : Response := .error ⟨500, "Internal Server Error"⟩

def rstripSlash (s : String) : String := String.ofList (s.toList.reverse.dropWhile (· == '/')).reverse

def oauthStateTtl : Nat := 600

def oauthStateKey (state : String) : String := "oauth_state:" ++ state

/-- The state of an authorization is kept for its callback, where there is a Valkey. -/
def storeState (srv : Host) (a : Answers) (p : Provider) : Option Host :=
  match srv.valkey with
  | none => some srv
  | some v =>
    if a.valkeyRaises then none
    else some { srv with valkey := some (v.setex (oauthStateKey a.state) oauthStateTtl (internalName p)) }

def redirectUri (baseUrl : String) (p : Provider) : String :=
  rstripSlash baseUrl ++ "/api/integrations/" ++ internalName p ++ "/callback"

def authorizeDirect (srv : Host) (a : Answers) (baseUrl : String) (p : Provider) : Response × Host :=
  match storeState srv a p with
  | none => (internalError, srv)
  | some s =>
    (.redirect (authorizeUrl srv.tenantId p)
      ([("client_id", srv.clientId p), ("redirect_uri", redirectUri baseUrl p), ("response_type", "code"),
        ("scope", scopes p), ("state", a.state)] ++ extraAuthParams p), s)

def authorizeCloud (srv : Host) (a : Answers) (p : Provider) : Response × Host :=
  if !srv.wsConnected then (.error ⟨503, "Cloud service not connected — try again later"⟩, srv)
  else
    match storeState srv a p with
    | none => (internalError, srv)
    | some s =>
      if !srv.ws then (.error ⟨503, "Cloud service not connected — try again later"⟩, s)
      else if a.wsSendRaises then (internalError, s)
      else
        (.redirect (srv.cloudServiceUrl ++ "/oauth/" ++ toWireProvider p ++ "/authorize") [("state", a.state)], s)

/-- `_authorize_provider`, for a known provider. -/
def authorizeProvider (srv : Host) (a : Answers) (baseUrl : String) (p : Provider) : Response × Host :=
  if !srv.cloudAvailable && srv.hasLocalCredentials p then authorizeDirect srv a baseUrl p
  else if !srv.cloudAvailable then
    (.error ⟨404, "Provider not configured — configure client credentials or connect to errand cloud"⟩, srv)
  else authorizeCloud srv a p

/-- The CSRF check of a callback: what it answers if it fails, else Valkey afterwards. -/
def checkState (srv : Host) (a : Answers) (p : Provider) (state : String) : Except Response Host :=
  match srv.valkey with
  | none => .ok srv
  | some v =>
    if state.isEmpty then .error (.popup "Invalid state token" true)
    else if a.valkeyRaises then .error internalError
    else if v.get (oauthStateKey state) ≠ some (internalName p) then .error (.popup "Invalid state token" true)
    else .ok { srv with valkey := some (v.delete (oauthStateKey state)) }

/-- The credentials a callback stores. A token response without a refresh token keeps the
    one stored before. -/
def callbackRow (srv : Host) (a : Answers) (p : Provider) (x : Exchanged) : Row :=
  let refreshToken :=
    if x.refreshToken.isEmpty then ((srv.rows p).map (·.credentials.refreshToken)).getD "" else x.refreshToken
  ⟨⟨x.accessToken, refreshToken, a.now + x.expiresIn⟩, ⟨a.userinfo.1, a.userinfo.2, x.scopes⟩⟩

def callbackExchange (srv : Host) (a : Answers) (p : Provider) : Response × Host :=
  if !srv.hasLocalCredentials p then
    (.error ⟨404, "Provider not configured — client credentials not set"⟩, srv)
  else
    match a.exchange with
    | .raised => (internalError, srv)
    | .failed => (.popup "Token exchange failed" true, srv)
    | .json x =>
      if x.accessToken.isEmpty then (.popup "No access token received" true, srv)
      else srv.commitRow p (some (callbackRow srv a p x)) (.popup "Connected successfully" false) a.commit

def callback (srv : Host) (a : Answers) (provider code error state : String) : Response × Host :=
  match getProvider provider with
  | .error e => (.error e, srv)
  | .ok p =>
    if !error.isEmpty then (.popup "Authorization denied" true, srv)
    else if code.isEmpty then (.popup "Missing authorization code" true, srv)
    else
      match checkState srv a p state with
      | .error r => (r, srv)
      | .ok s => callbackExchange s a p

def buildProviderStatus (srv : Host) (p : Provider) : ProviderStatus :=
  let row := srv.rows p
  let required := requiredScopes p
  { available := (srv.providerAvailable p).1
    connected := row.isSome
    mode := (srv.providerAvailable p).2
    mcpConfigured := if p = .googleDrive then none else some (srv.hasMcpUrl p)
    user := row.map fun r => (r.account.userEmail, r.account.userName)
    scopes :=
      if required.isEmpty then none
      else row.map fun r => (r.account.grantedScopes, !required.all (r.account.grantedScopes.contains ·)) }

def integrationStatus (srv : Host) : Response :=
  .status ([.googleDrive, .onedrive].map fun p => (p, buildProviderStatus srv p))

def nonEmpty (s : String) : Option String := if s.isEmpty then none else some s

def cloudStorageStatus (srv : Host) : Response :=
  let status := buildProviderStatus srv .onedrive
  .cloudStorageStatus status.connected (status.user.bind fun u => (nonEmpty u.1).or (nonEmpty u.2))

def googleWorkspaceStatus (srv : Host) : Response :=
  let status := buildProviderStatus srv .googleDrive
  .googleWorkspaceStatus status.connected (status.user.bind fun u => nonEmpty u.1)
    ((status.scopes.map (·.1)).filter fun granted => !granted.isEmpty)

/-- `_disconnect_provider`, for a known provider. -/
def disconnectProvider (srv : Host) (a : Answers) (p : Provider) (response : Response) : Response × Host :=
  srv.commitRow p none response a.commit

/-! ## Refreshes -/

/-- How a refresh was started. -/
inductive Kind where
  /-- By `/api/integrations/{provider}/refresh`, through the cloud only. -/
  | internal
  /-- By the provider's own refresh endpoint. -/
  | forced
  deriving DecidableEq, Repr

/-- A refresh that waits for its answer, with the row it read and the server it found. -/
structure Pending where
  kind : Kind
  provider : Provider
  row : Row
  found : Host

/-- `refresh_token`, up to its message to the cloud. -/
def refreshToken (srv : Host) (provider : String) : Except HttpError (Provider × Row) :=
  match getProvider provider with
  | .error e => .error e
  | .ok p =>
    match srv.rows p with
    | none => .error ⟨404, "No credentials for " ++ provider⟩
    | some row =>
      if row.credentials.refreshToken.isEmpty then .error ⟨400, "No refresh token available"⟩
      else if !srv.wsConnected then .error ⟨503, "Cloud WebSocket not connected"⟩
      else if srv.client.isNone then .error ⟨503, "No active cloud client"⟩
      else .ok (p, row)

/-- `refresh_google_token` and `refresh_onedrive_token`, for a caller let through. -/
def loadForced (srv : Host) (p : Provider) : Except HttpError Row :=
  match srv.rows p, p with
  | some row, _ => .ok row
  | none, .googleDrive => .error ⟨404, "no Google credentials configured"⟩
  | none, .onedrive => .error ⟨404, "no OneDrive credentials configured"⟩

/-- Whether a refresh sends the refresh token out: to the provider's token endpoint, or
    over the cloud's WebSocket. -/
def sends (w : Pending) : Bool :=
  !w.row.credentials.refreshToken.isEmpty &&
    (w.found.relays || (w.kind == .forced && w.found.hasLocalCredentials w.provider))

/-- `refresh_token` from the cloud's answer on. -/
def finishInternal (srv : Host) (a : Answers) (w : Pending) : Response × Host :=
  match if w.found.relays then a.relay else none with
  | none => (.error ⟨502, "Cloud proxy refresh failed"⟩, srv)
  | some t =>
    if t.accessToken.isEmpty then (.error ⟨502, "No access token in refresh response"⟩, srv)
    else
      let response := Response.token ⟨w.provider, t.accessToken⟩ (t.expiresIn.getD 3600)
      match srv.rows w.provider with
      | none => (response, srv)
      | some _ =>
        srv.commitRow w.provider (some ⟨withTokens a.now w.row.credentials t, w.row.account⟩) response a.commit

def outside (srv : Host) (a : Answers) (w : Pending) : Outside :=
  { now := a.now
    clientId := w.found.clientId w.provider
    clientSecret := w.found.clientSecret w.provider
    mcpUrl := w.found.cfg.env "ERRAND_MCP_URL"
    endpoint := a.endpoint
    webSocket := if w.found.relays then a.relay else none
    http := a.http
    stored := (srv.rows w.provider).isSome
    commit := a.commit
    httpCommit := a.httpCommit }

def finishForced (srv : Host) (a : Answers) (w : Pending) : Response × Host :=
  let refreshed := refreshTokenIfNeeded (outside srv a w) true w.row.credentials
  let srv :=
    match refreshed.written with
    | none => srv
    | some c => srv.setRow w.provider (some ⟨c, w.row.account⟩)
  match refreshed.result with
  | none => (.error ⟨502, "upstream refresh failed"⟩, srv)
  | some c => (.token ⟨w.provider, c.accessToken⟩ c.expiresAt, srv)

def finish (srv : Host) (a : Answers) (w : Pending) : Response × Host :=
  match w.kind with
  | .internal => finishInternal srv a w
  | .forced => finishForced srv a w

/-! ## The endpoints -/

inductive Handled where
  | served (response : Response) (srv : Host)
  | started (w : Pending) (srv : Host)

def serve (x : Response × Host) : Handled := .served x.1 x.2

section Endpoints

variable (libs : Libs String) (validCloudJwt : String → Bool)

/-- An endpoint behind `_require_user`. -/
def forUser (srv : Host) (a : Answers) (r : Request) (endpoint : Response × Host) : Handled :=
  match requireUser libs validCloudJwt srv.cfg a.now r.sender with
  | .error e => .served (.error e) srv
  | .ok _ => serve endpoint

/-- An endpoint for the provider its path names. -/
def named (srv : Host) (provider : String) (endpoint : Provider → Response × Host) : Response × Host :=
  match getProvider provider with
  | .error e => (.error e, srv)
  | .ok p => endpoint p

def refreshEndpoint (srv : Host) (a : Answers) (r : Request) (p : Provider) : Handled :=
  match requireRefreshBearer srv.workspaceTtl (taskBearerPrefix p) srv.valkey a.valkeyRaises r.sender.bearer with
  | (.error e, valkey) => .served (.error e) { srv with valkey := valkey }
  | (.ok _, valkey) =>
    let srv := { srv with valkey := valkey }
    match loadForced srv p with
    | .error e => .served (.error e) srv
    | .ok row => .started ⟨.forced, p, row, srv⟩ srv

def handle (srv : Host) (a : Answers) (r : Request) : Handled :=
  match r.route with
  | .authorize provider =>
    forUser libs validCloudJwt srv a r (named srv provider (authorizeProvider srv a r.baseUrl))
  | .callback provider code error state => serve (callback srv a provider code error state)
  | .disconnect provider =>
    forUser libs validCloudJwt srv a r (named srv provider fun p => disconnectProvider srv a p .ok)
  | .refresh provider =>
    -- no dependency asks who is calling
    match refreshToken srv provider with
    | .error e => .served (.error e) srv
    | .ok (p, row) => .started ⟨.internal, p, row, srv⟩ srv
  | .status => forUser libs validCloudJwt srv a r (integrationStatus srv, srv)
  | .cloudStorageStatus => forUser libs validCloudJwt srv a r (cloudStorageStatus srv, srv)
  | .cloudStorageAuthorize => forUser libs validCloudJwt srv a r (authorizeProvider srv a r.baseUrl .onedrive)
  | .cloudStorageDisconnect => forUser libs validCloudJwt srv a r (disconnectProvider srv a .onedrive .noContent)
  | .googleWorkspaceStatus => forUser libs validCloudJwt srv a r (googleWorkspaceStatus srv, srv)
  | .googleWorkspaceAuthorize => forUser libs validCloudJwt srv a r (authorizeProvider srv a r.baseUrl .googleDrive)
  | .googleWorkspaceDisconnect => forUser libs validCloudJwt srv a r (disconnectProvider srv a .googleDrive .noContent)
  | .googleRefreshToken => refreshEndpoint srv a r .googleDrive
  | .onedriveRefreshToken => refreshEndpoint srv a r .onedrive

end Endpoints

/-! ## What a request discloses -/

/-- A refresh through `/api/integrations/{provider}/refresh` has a refresh token to send,
    and the cloud to send it to. -/
def reaches (host : Host) (p : Provider) : Bool :=
  (host.rows p).any (fun row => !row.credentials.refreshToken.isEmpty) && host.relays

/-- The request is one through `/api/integrations/{provider}/refresh` that gets as far as
    the cloud. -/
def Through (srv : Host) (route : Route) (p : Provider) : Prop :=
  ∃ provider, route = .refresh provider ∧ getProvider provider = .ok p ∧ reaches srv p = true

theorem commitRow_tokens {srv : Host} {p : Provider} {row : Option Row} {response : Response} (c : CommitAnswer)
    (h : response.tokens = []) : (srv.commitRow p row response c).1.tokens = [] := by
  cases c with
  | ok => exact h
  | raised landed => rfl

theorem authorizeProvider_tokens (srv : Host) (a : Answers) (baseUrl : String) (p : Provider) :
    (authorizeProvider srv a baseUrl p).1.tokens = [] := by
  unfold authorizeProvider
  split
  · unfold authorizeDirect
    split <;> rfl
  · split
    · rfl
    · unfold authorizeCloud
      split
      · rfl
      · split
        · rfl
        · split
          · rfl
          · split <;> rfl

theorem callback_tokens (srv : Host) (a : Answers) (provider code error state : String) :
    (callback srv a provider code error state).1.tokens = [] := by
  unfold callback
  split
  · rfl
  · split
    · rfl
    · split
      · rfl
      · split
        · rename_i r hr
          unfold checkState at hr
          split at hr
          · cases hr
          · split at hr
            · cases hr; rfl
            · split at hr
              · cases hr; rfl
              · split at hr
                · cases hr; rfl
                · cases hr
        · unfold callbackExchange
          split
          · rfl
          · split
            · rfl
            · rfl
            · split
              · rfl
              · exact commitRow_tokens _ rfl

theorem named_tokens {srv : Host} {provider : String} {endpoint : Provider → Response × Host}
    (h : ∀ p, (endpoint p).1.tokens = []) : (named srv provider endpoint).1.tokens = [] := by
  unfold named
  split
  · rfl
  · exact h _

section Disclosure

variable {libs : Libs String} {validCloudJwt : String → Bool}

theorem forUser_served {srv : Host} {a : Answers} {r : Request} {endpoint : Response × Host}
    (h : endpoint.1.tokens = []) :
    ∃ response host, forUser libs validCloudJwt srv a r endpoint = .served response host ∧ response.tokens = [] := by
  unfold forUser
  split
  · exact ⟨_, _, rfl, rfl⟩
  · exact ⟨_, _, rfl, h⟩

theorem refreshToken_error {srv : Host} {provider : String} {e : HttpError} (h : refreshToken srv provider = .error e)
    {p : Provider} (hp : getProvider provider = .ok p) : reaches srv p = false := by
  unfold refreshToken at h
  simp only [hp] at h
  unfold reaches Host.relays
  cases hrow : srv.rows p with
  | none => rfl
  | some row =>
    simp only [hrow] at h
    rw [Option.any_some]
    split at h
    · rename_i he; simp [he]
    · split at h
      · rename_i hw
        have hw : srv.wsConnected = false := by simpa using hw
        simp [hw]
      · split at h
        · rename_i hc
          have hc : srv.client = none := by simpa using hc
          simp [hc]
        · cases h

theorem refreshToken_ok {srv : Host} {provider : String} {p : Provider} {row : Row}
    (h : refreshToken srv provider = .ok (p, row)) :
    getProvider provider = .ok p ∧ srv.rows p = some row ∧ row.credentials.refreshToken.isEmpty = false := by
  unfold refreshToken at h
  split at h
  · cases h
  · rename_i q hq
    split at h
    · cases h
    · rename_i row' hrow
      split at h
      · cases h
      · rename_i hne
        split at h
        · cases h
        · split at h
          · cases h
          · cases h
            exact ⟨hq, hrow, by simpa using hne⟩

/-- A refresh endpoint answers without a token, or starts a refresh its sender is entitled
    to. -/
theorem refreshEndpoint_cases (srv : Host) (a : Answers) (r : Request) (p : Provider) :
    (∃ response host, refreshEndpoint srv a r p = .served response host ∧ response.tokens = []) ∨
    (∃ row host, refreshEndpoint srv a r p = .started ⟨.forced, p, row, host⟩ host ∧
      entitled libs validCloudJwt srv.cfg a.now srv.valkey r.sender p = true) := by
  unfold refreshEndpoint
  split
  · exact .inl ⟨_, _, rfl, rfl⟩
  · rename_i caller valkey hb
    simp only
    split
    · exact .inl ⟨_, _, rfl, rfl⟩
    · exact .inr ⟨_, _, rfl, requireRefreshBearer_entitled (by rw [hb])⟩

/-- A request is served without a token, or starts a refresh: through the cloud whoever
    sends it, or as an entitled sender. -/
theorem handle_cases (srv : Host) (a : Answers) (r : Request) :
    (∃ response host, handle libs validCloudJwt srv a r = .served response host ∧ response.tokens = [] ∧
      ∀ p, ¬ Through srv r.route p) ∨
    (∃ p row, handle libs validCloudJwt srv a r = .started ⟨.internal, p, row, srv⟩ srv ∧
      row.credentials.refreshToken.isEmpty = false ∧
      ∀ q, Through srv r.route q ↔ q = p ∧ sends ⟨.internal, p, row, srv⟩ = true) ∨
    (∃ p row host, handle libs validCloudJwt srv a r = .started ⟨.forced, p, row, host⟩ host ∧
      entitled libs validCloudJwt srv.cfg a.now srv.valkey r.sender p = true ∧ ∀ q, ¬ Through srv r.route q) := by
  have other : ∀ {h : Handled} {route : Route}, (∀ provider, route ≠ .refresh provider) →
      (∃ response host, h = .served response host ∧ response.tokens = []) →
      ∃ response host, h = .served response host ∧ response.tokens = [] ∧ ∀ p, ¬ Through srv route p := by
    intro h route hr hx
    obtain ⟨response, host, rfl, ht⟩ := hx
    refine ⟨_, _, rfl, ht, ?_⟩
    intro p hx
    obtain ⟨provider, hp, -⟩ := hx
    exact hr provider hp
  have forced : ∀ p route, (∀ provider, route ≠ Route.refresh provider) →
      (∃ response host, refreshEndpoint srv a r p = .served response host ∧ response.tokens = [] ∧
        ∀ p, ¬ Through srv route p) ∨
      (∃ q row host, refreshEndpoint srv a r p = .started ⟨.forced, q, row, host⟩ host ∧
        entitled libs validCloudJwt srv.cfg a.now srv.valkey r.sender q = true ∧ ∀ q, ¬ Through srv route q) := by
    intro p route hr
    rcases refreshEndpoint_cases srv a r p with h | ⟨row, host, h, he⟩
    · exact .inl (other hr h)
    · refine .inr ⟨p, row, host, h, he, ?_⟩
      intro q hx
      obtain ⟨provider, hp, -⟩ := hx
      exact hr provider hp
  unfold handle
  cases r.route with
  | authorize provider =>
    left
    exact other (by intro _ h; cases h) (forUser_served (named_tokens fun p => authorizeProvider_tokens _ _ _ p))
  | callback provider code error state =>
    left
    exact other (by intro _ h; cases h) ⟨_, _, rfl, callback_tokens ..⟩
  | disconnect provider =>
    left
    exact other (by intro _ h; cases h) (forUser_served (named_tokens fun p => commitRow_tokens _ rfl))
  | refresh provider =>
    simp only
    split
    · rename_i e he
      refine .inl ⟨_, _, rfl, rfl, ?_⟩
      intro p hx
      obtain ⟨provider', h, hp, hreach⟩ := hx
      cases h
      rw [refreshToken_error he hp] at hreach
      cases hreach
    · rename_i p row h
      obtain ⟨hp, hrow, hne⟩ := refreshToken_ok h
      have hsend : sends ⟨.internal, p, row, srv⟩ = reaches srv p := by
        simp [sends, reaches, hrow, hne]
      refine .inr (.inl ⟨p, row, rfl, hne, fun q => ?_⟩)
      rw [hsend]
      constructor
      · intro hx
        obtain ⟨provider', h', hq, hreach⟩ := hx
        cases h'
        rw [hp] at hq
        cases hq
        exact ⟨rfl, hreach⟩
      · intro hx
        obtain ⟨rfl, hreach⟩ := hx
        exact ⟨provider, rfl, hp, hreach⟩
  | status => exact .inl (other (by intro _ h; cases h) (forUser_served rfl))
  | cloudStorageStatus => exact .inl (other (by intro _ h; cases h) (forUser_served rfl))
  | cloudStorageAuthorize =>
    left
    exact other (by intro _ h; cases h) (forUser_served (authorizeProvider_tokens ..))
  | cloudStorageDisconnect =>
    left
    exact other (by intro _ h; cases h) (forUser_served (commitRow_tokens _ rfl))
  | googleWorkspaceStatus => exact .inl (other (by intro _ h; cases h) (forUser_served rfl))
  | googleWorkspaceAuthorize =>
    left
    exact other (by intro _ h; cases h) (forUser_served (authorizeProvider_tokens ..))
  | googleWorkspaceDisconnect =>
    left
    exact other (by intro _ h; cases h) (forUser_served (commitRow_tokens _ rfl))
  | googleRefreshToken =>
    rcases forced .googleDrive .googleRefreshToken (by intro provider h; cases h) with h | h
    · exact .inl h
    · exact .inr (.inr h)
  | onedriveRefreshToken =>
    rcases forced .onedrive .onedriveRefreshToken (by intro provider h; cases h) with h | h
    · exact .inl h
    · exact .inr (.inr h)

/-! ## What a refresh discloses -/

theorem finish_tokens {srv : Host} {a : Answers} {w : Pending} {t : AccessToken}
    (h : t ∈ (finish srv a w).1.tokens) : t.provider = w.provider ∧ (w.kind = .internal → w.found.relays = true) := by
  unfold finish at h
  cases hk : w.kind with
  | internal =>
    simp only [hk] at h
    unfold finishInternal at h
    by_cases hr : w.found.relays = true
    · refine ⟨?_, fun _ => hr⟩
      rw [if_pos hr] at h
      split at h
      · cases h
      · split at h
        · cases h
        · simp only at h
          split at h
          · rw [List.mem_singleton.mp h]
          · cases hc : a.commit with
            | ok => rw [hc] at h; rw [List.mem_singleton.mp h]
            | raised landed => rw [hc] at h; cases h
    · rw [if_neg hr] at h
      cases h
  | forced =>
    simp only [hk] at h
    unfold finishForced at h
    refine ⟨?_, fun hi => by cases hi⟩
    simp only at h
    split at h
    · cases h
    · rw [List.mem_singleton.mp h]

/-! ## What a request does to Valkey -/

section Live

variable {key : String} (hkey : ∀ state, key ≠ oauthStateKey state)

include hkey

end Live

end Disclosure

end Errand.Server.Integrations

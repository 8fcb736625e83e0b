import Errand.Server.Auth
import Errand.Server.CloudStorage

/-
  Errand.Server.RefreshAuth — who may call a token-refresh endpoint
  (errand/workspace_refresh_auth.py; `_require_user`, errand/integration_routes.py).

  A bearer is good for a refresh endpoint while Valkey has it as a key: under the
  workspace prefix, for every endpoint, or under the prefix of the endpoint's own provider.
  Using a workspace bearer renews it. The integration endpoints ask for a user's token, or
  for the cloud's on requests that come through its proxy.

  Proved:
  - `requireRefreshBearer_entitled`: whom the bearer's dependency lets through.
-/

namespace Errand.Server.RefreshAuth

open Errand.Server.Auth (HttpError Libs Config validateToken)
open Errand.Server.CloudStorage (Provider)

/-! ## Valkey -/

/-- The keys with their values and the second they expire in, by the store's own clock. -/
structure Valkey where
  clock : Nat
  entries : String → Option (String × Nat)

namespace Valkey

def get (v : Valkey) (key : String) : Option String :=
  (v.entries key).bind fun e => if v.clock < e.2 then some e.1 else none

def put (v : Valkey) (key : String) (e : Option (String × Nat)) : Valkey :=
  { v with entries := fun k => if k = key then e else v.entries k }

def setex (v : Valkey) (key : String) (ttl : Nat) (value : String) : Valkey := v.put key (some (value, v.clock + ttl))

def delete (v : Valkey) (key : String) : Valkey := v.put key none

def expire (v : Valkey) (key : String) (ttl : Nat) : Valkey :=
  match v.get key with
  | some value => v.setex key ttl value
  | none => v

end Valkey

/-! ## The refresh bearers -/

def workspaceBearerKeyPrefix : String := "workspace_refresh_bearer:"

def taskBearerPrefix : Provider → String
  | .googleDrive => "google_refresh_token:"
  | .onedrive => "onedrive_refresh_token:"

def renewWorkspaceBearer (ttl : Nat) (v : Valkey) (bearer : String) : Valkey :=
  v.expire (workspaceBearerKeyPrefix ++ bearer) ttl

/-- The caller a bearer stands for, and Valkey afterwards. -/
def resolveRefreshCaller (ttl : Nat) (v : Valkey) (bearer taskBearerPrefix : String) : Option String × Valkey :=
  match v.get (workspaceBearerKeyPrefix ++ bearer) with
  | some _ => (some "workspace", renewWorkspaceBearer ttl v bearer)
  | none => (v.get (taskBearerPrefix ++ bearer), v)

/-- `require_refresh_bearer`'s dependency; `raises` is a Valkey that cannot be asked. -/
def requireRefreshBearer (ttl : Nat) (taskBearerPrefix : String) (valkey : Option Valkey) (raises : Bool)
    (credentials : Option String) : Except HttpError String × Option Valkey :=
  match credentials.filter fun b => !b.isEmpty with
  | none => (.error ⟨401, "missing bearer token"⟩, valkey)
  | some bearer =>
    match valkey with
    | none => (.error ⟨503, "Valkey unavailable"⟩, none)
    | some v =>
      if raises then (.error ⟨503, "Valkey unavailable"⟩, some v)
      else
        match resolveRefreshCaller ttl v bearer taskBearerPrefix with
        | (some caller, v) => (.ok caller, some v)
        | (none, v) => (.error ⟨401, "invalid or expired bearer token"⟩, some v)

/-! ## Users -/

/-- What a request shows of its sender. `proxied`: it carries the cloud proxy's secret. -/
structure Sender where
  bearer : Option String
  proxied : Bool
  cloudJwt : String
  deriving DecidableEq, Repr

section Users

variable (libs : Libs String) (validCloudJwt : String → Bool) (cfg : Config) (now : Int)

/-- `_try_cloud_jwt_auth`: whether the request is the cloud's. -/
def tryCloudJwtAuth (r : Sender) : Except HttpError Bool :=
  if !r.proxied || r.cloudJwt.isEmpty then .ok false
  else if validCloudJwt r.cloudJwt then .ok true
  else .error ⟨401, "Invalid cloud token"⟩

def getCurrentUser (r : Sender) (bearer : String) : Except HttpError (List String) :=
  match tryCloudJwtAuth validCloudJwt r with
  | .error e => .error e
  | .ok true => .ok ["admin"]
  | .ok false => validateToken libs cfg now bearer

def requireUser (r : Sender) : Except HttpError (List String) :=
  match r.bearer with
  | none => .error ⟨401, "Not authenticated"⟩
  | some bearer => getCurrentUser libs validCloudJwt cfg now r bearer

/-! ## Entitlement -/

/-- The sender presents an admin's or a user's token. -/
def presentsUser (r : Sender) : Bool :=
  r.bearer.any (fun b => (validateToken libs cfg now b).isOk) || (r.proxied && validCloudJwt r.cloudJwt)

/-- The sender's bearer is a live key under a prefix. -/
def presents (valkey : Option Valkey) (pre : String) (r : Sender) : Bool :=
  r.bearer.any fun b => valkey.any fun v => (v.get (pre ++ b)).isSome

/-- Who may have a provider's access token: a user, the workspace gateway, and a task the
    provider's bearer was issued to. -/
def entitled (valkey : Option Valkey) (r : Sender) (p : Provider) : Bool :=
  presentsUser libs validCloudJwt cfg now r || presents valkey workspaceBearerKeyPrefix r ||
    presents valkey (taskBearerPrefix p) r

variable {libs validCloudJwt cfg now}

theorem requireRefreshBearer_entitled {ttl : Nat} {p : Provider} {valkey : Option Valkey} {raises : Bool} {r : Sender}
    {caller : String} (h : (requireRefreshBearer ttl (taskBearerPrefix p) valkey raises r.bearer).1 = .ok caller) :
    entitled libs validCloudJwt cfg now valkey r p = true := by
  unfold requireRefreshBearer at h
  split at h
  · cases h
  · rename_i b hb
    have hb : r.bearer = some b := (Option.filter_eq_some_iff.mp hb).1
    split at h
    · cases h
    · rename_i v
      split at h
      · cases h
      · have hlive : (v.get (workspaceBearerKeyPrefix ++ b)).isSome = true ∨
            (v.get (taskBearerPrefix p ++ b)).isSome = true := by
          unfold resolveRefreshCaller at h
          cases hw : v.get (workspaceBearerKeyPrefix ++ b) with
          | some _ => exact .inl rfl
          | none =>
            right
            simp only [hw] at h
            cases ht : v.get (taskBearerPrefix p ++ b) with
            | some _ => rfl
            | none => simp [ht] at h
        unfold entitled presents
        rw [hb]
        rcases hlive with hlive | hlive
        · simp [hlive]
        · simp [hlive]

end Users

end Errand.Server.RefreshAuth

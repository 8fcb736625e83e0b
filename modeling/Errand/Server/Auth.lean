import Errand.Lib.Machine
import Errand.Lib.PyStr

/-
  Errand.Server.Auth — what an unauthenticated caller can get from the auth endpoints
  (`setup_create_user`, `auth_status`, `_resolve_auth_mode`, `_validate_token`,
  errand/main.py; `local_login`, `_mint_local_jwt`, errand/local_auth.py).

  A setup request looks for a local user, and only then validates its body and hashes the
  password; inserts the user and commits, which fails when the name is taken by then; and
  reads the signing secret and mints a token. Any number of them, of logins with
  credentials nobody has, and of status calls interleave. The environment and the settings
  stay as they are; the token and password libraries are open.

  Proved:
  - `guarded_setup_safe`: outside setup mode nobody is handed a token that validates as
    admin, and from setup mode one user and one such token come out at most, in every run
    in which a setup request gets past its check only in setup mode and only while no
    request for another name is past its own.
  - `sso_setup_hands_out_admin`: with SSO configured and no local user it does not hold.
  - `two_setups_two_admins`: nor with two setup requests at once.
-/

namespace Errand.Server.Auth

open Errand.Lib

structure LocalUser where
  username : String
  passwordHash : String
  role : String
  deriving DecidableEq, Repr

/-- Environment variables and settings; an unset variable is the empty string. -/
structure Config where
  env : String → String
  setting : String → Option String

inductive AuthMode where
  | sso
  | localUser
  | setup
  deriving DecidableEq, Repr

structure HttpError where
  status : Nat
  detail : String
  deriving DecidableEq, Repr

/-- The claims of a local token. -/
structure Claims where
  sub : String
  email : String
  roles : List String
  iss : String
  iat : Int
  exp : Int
  deriving DecidableEq, Repr

inductive DecodeError where
  | expiredSignature
  | invalidToken
  deriving DecidableEq, Repr

/-- PyJWT, the OIDC provider and bcrypt. -/
structure Libs (τ : Type) where
  encode : Claims → String → τ
  unverified : τ → Option Claims
  decode : Int → τ → String → Except DecodeError Claims
  /-- The roles of a token that is not a local one. -/
  oidc : τ → Except HttpError (List String)
  hashpw : String → String → String
  checkpw : String → String → Bool

/-- The JSON body of a request: the two fields it may carry. -/
structure Body where
  username : Option String
  password : Option String
  deriving DecidableEq, Repr

inductive Response (τ : Type) where
  | token (t : τ)
  | error (e : HttpError)
  | mode (m : AuthMode) (loginUrl : Option String)

/-! ## The endpoints -/

def envKeys : List String := ["OIDC_DISCOVERY_URL", "OIDC_CLIENT_ID", "OIDC_CLIENT_SECRET"]

def settingKeys : List String := ["oidc_discovery_url", "oidc_client_id", "oidc_client_secret"]

def jwtSigningSecret : String := "jwt_signing_secret"

def resolveAuthMode (cfg : Config) (users : List LocalUser) : AuthMode :=
  if envKeys.all fun v => !(cfg.env v).isEmpty then .sso
  else if settingKeys.all fun key => (cfg.setting key).any fun v => !v.isEmpty then .sso
  else if !users.isEmpty then .localUser
  else .setup

def Body.name (b : Body) : String := PyStr.stripString (b.username.getD "")

def Body.pass (b : Body) : String := b.password.getD ""

section Endpoints

variable {τ : Type} (libs : Libs τ) (cfg : Config)

def mintLocalJwt (now : Int) (username role secret : String) : τ :=
  libs.encode ⟨username, username ++ "@local", [role], "errand-local", now, now + 24 * 3600⟩ secret

/-- `_validate_token`: the roles of an accepted token. -/
def validateToken (now : Int) (token : τ) : Except HttpError (List String) :=
  match libs.unverified token with
  | none => .error ⟨401, "Invalid token"⟩
  | some claims =>
    if claims.iss = "errand-local" then
      match cfg.setting jwtSigningSecret with
      | none => .error ⟨401, "Local auth not configured"⟩
      | some secret =>
        match libs.decode now token secret with
        | .error .expiredSignature => .error ⟨401, "Token expired"⟩
        | .error .invalidToken => .error ⟨401, "Invalid token"⟩
        | .ok claims => .ok claims.roles
    else libs.oidc token

def authStatus (users : List LocalUser) : Response τ :=
  let mode := resolveAuthMode cfg users
  .mode mode (if mode = .sso then some "/auth/login" else none)

def localLogin (now : Int) (users : List LocalUser) (b : Body) : Response τ :=
  if b.name.isEmpty || b.pass.isEmpty then .error ⟨422, "Username and password required"⟩
  else if b.pass.utf8ByteSize > 72 then .error ⟨401, "Invalid credentials"⟩
  else
    match users.find? (·.username = b.name) with
    | none => .error ⟨401, "Invalid credentials"⟩
    | some user =>
      if libs.checkpw b.pass user.passwordHash then
        match (cfg.setting jwtSigningSecret).filter fun v => !v.isEmpty with
        | none => .error ⟨500, "JWT signing secret not configured"⟩
        | some secret => .token (mintLocalJwt libs now b.name user.role secret)
      else .error ⟨401, "Invalid credentials"⟩

/-- What `setup_create_user` makes of a body once it has seen no local user. -/
def setupBody (b : Body) (salt : String) : Except HttpError (String × String) :=
  if b.name.isEmpty || b.pass.isEmpty then .error ⟨422, "Username and password required"⟩
  else if b.pass.utf8ByteSize > 72 then .error ⟨422, "Password must not exceed 72 bytes"⟩
  else .ok (b.name, libs.hashpw b.pass salt)

def setupToken (now : Int) (username : String) : Response τ :=
  match cfg.setting jwtSigningSecret with
  | none => .error ⟨500, "JWT signing secret not configured"⟩
  | some secret => .token (mintLocalJwt libs now username "admin" secret)

end Endpoints

/-! ## Interleaved requests -/

structure St (τ : Type) where
  /-- The local users there were at first. -/
  initial : List LocalUser
  users : List LocalUser
  /-- Setup requests past their check: the user each is about to insert. -/
  inserting : List (String × String)
  /-- Setup requests that have committed their user. -/
  minting : List String
  /-- The users setup requests have created. -/
  created : List String
  responses : List (Response τ)

def start {τ : Type} (users : List LocalUser) : St τ := ⟨users, users, [], [], [], []⟩

inductive Ev where
  | setupCheck (b : Body) (salt : String)
  | setupCommit (u : String × String)
  /-- The request is lost at its commit, which may have landed. -/
  | setupLost (u : String × String) (landed : Bool)
  | setupMint (username : String) (now : Int)
  /-- A login with a name and password that belong to nobody. -/
  | login (b : Body) (now : Int)
  | status
  deriving Repr

section Steps

variable {τ : Type} (libs : Libs τ) (cfg : Config)

def respond (s : St τ) (r : Response τ) : St τ := { s with responses := r :: s.responses }

def taken (s : St τ) (username : String) : Bool := s.users.any (·.username = username)

def insertUser (s : St τ) (u : String × String) : St τ :=
  { s with users := s.users ++ [⟨u.1, u.2, "admin"⟩], created := u.1 :: s.created }

/-- Nobody has this name and password. -/
def unknown (s : St τ) (b : Body) : Bool :=
  s.users.all fun u => u.username ≠ b.name || !libs.checkpw b.pass u.passwordHash

def setupCheck (s : St τ) (b : Body) (salt : String) : St τ :=
  if !s.users.isEmpty then respond s (.error ⟨403, "Setup already completed"⟩)
  else
    match setupBody libs b salt with
    | .error e => respond s (.error e)
    | .ok u => { s with inserting := u :: s.inserting }

def setupCommit (s : St τ) (u : String × String) : St τ :=
  let s := { s with inserting := s.inserting.erase u }
  if taken s u.1 then respond s (.error ⟨500, "Internal Server Error"⟩)
  else { insertUser s u with minting := u.1 :: s.minting }

def step (s : St τ) : Ev → Option (St τ)
  | .setupCheck b salt => some (setupCheck libs s b salt)
  | .setupCommit u => if u ∈ s.inserting then some (setupCommit s u) else none
  | .setupLost u landed =>
    if u ∈ s.inserting then
      let s := { s with inserting := s.inserting.erase u }
      some (if landed && !taken s u.1 then insertUser s u else s)
    else none
  | .setupMint username now =>
    if username ∈ s.minting then
      some (respond { s with minting := s.minting.erase username } (setupToken libs cfg now username))
    else none
  | .login b now => if unknown libs s b then some (respond s (localLogin libs cfg now s.users b)) else none
  | .status => some (respond s (authStatus cfg s.users))

def machine : Machine (St τ) Ev := ⟨fun s => ∃ users, s = start users, step libs cfg⟩

/-- A response that hands out a token which validates, at some time, with the admin role. -/
def AdminToken (r : Response τ) : Prop :=
  ∃ t now roles, r = .token t ∧ validateToken libs cfg now t = .ok roles ∧ "admin" ∈ roles

def Safe (s : St τ) : Prop :=
  (resolveAuthMode cfg s.initial ≠ .setup → ∀ r ∈ s.responses, ¬ AdminToken libs cfg r) ∧
    (resolveAuthMode cfg s.initial = .setup → s.created.length ≤ 1 ∧
      s.responses.Pairwise fun a b => ¬ (AdminToken libs cfg a ∧ AdminToken libs cfg b))

/-- A setup request gets past its check only in setup mode, and only while every other
    one past its own is for the same name. -/
def Guarded (s : St τ) : Ev → Prop
  | .setupCheck b salt => s.users = [] → (setupBody libs b salt).isOk = true →
      resolveAuthMode cfg s.users = .setup ∧ ∀ u ∈ s.inserting, u.1 = b.name
  | _ => True

end Steps

/-! ## Guarded runs -/

def Response.isToken {τ : Type} : Response τ → Bool
  | .token _ => true
  | _ => false

section Guard

variable {τ : Type} {libs : Libs τ} {cfg : Config}

/-- Outside setup mode no setup request gets anywhere. -/
structure Closed (s : St τ) : Prop where
  users : s.users = s.initial
  inserting : s.inserting = []
  minting : s.minting = []
  tokens : ∀ r ∈ s.responses, r.isToken = false

/-- In setup mode all requests past the check are for one name, and the tokens handed out
    or on their way are for the one user created. -/
structure OneSetup (s : St τ) : Prop where
  users : s.users.map (·.username) = s.created
  oneName : ∀ u ∈ s.inserting, ∀ v ∈ s.inserting, u.1 = v.1
  nameTaken : ∀ u ∈ s.inserting, ∀ n ∈ s.created, u.1 = n
  oneUser : s.created.length ≤ 1
  tokens : s.responses.countP Response.isToken + s.minting.length ≤ s.created.length

theorem localLogin_unknown {s : St τ} {b : Body} (h : unknown libs s b = true) (now : Int) :
    (localLogin libs cfg now s.users b).isToken = false := by
  unfold localLogin
  split
  · rfl
  · split
    · rfl
    · split
      · rfl
      · rename_i user hu
        have hn := List.find?_some hu
        have hm := List.all_eq_true.mp h user (List.mem_of_find?_eq_some hu)
        simp only [decide_eq_true_eq] at hn
        simp only [hn, ne_eq, not_true_eq_false, decide_false, Bool.false_or, Bool.not_eq_true'] at hm
        rw [if_neg (by simp [hm])]
        rfl

theorem setupBody_name {b : Body} {salt : String} {u : String × String} (h : setupBody libs b salt = .ok u) :
    u.1 = b.name := by
  unfold setupBody at h
  split at h
  · cases h
  · split at h
    · cases h
    · cases h; rfl

theorem closed_step {s s' : St τ} {e : Ev} (hm : resolveAuthMode cfg s.initial ≠ .setup) (h : Closed s)
    (hg : Guarded libs cfg s e) (hs : step libs cfg s e = some s') : Closed s' ∧ s'.initial = s.initial := by
  have answer : ∀ r : Response τ, r.isToken = false → Closed (respond s r) := by
    intro r hr
    refine ⟨h.users, h.inserting, h.minting, fun r' hr' => ?_⟩
    rcases List.mem_cons.mp hr' with rfl | hr'
    · exact hr
    · exact h.tokens r' hr'
  cases e with
  | setupCheck b salt =>
    cases hs
    unfold setupCheck
    split
    · exact ⟨answer _ rfl, rfl⟩
    · rename_i hu
      have hu : s.users = [] := by simpa using hu
      split
      · exact ⟨answer _ rfl, rfl⟩
      · rename_i u hok
        have := (hg hu (by rw [hok]; rfl)).1
        rw [h.users] at this
        exact absurd this hm
  | setupCommit u => simp [step, h.inserting] at hs
  | setupLost u landed => simp [step, h.inserting] at hs
  | setupMint username now => simp [step, h.minting] at hs
  | login b now =>
    simp only [step] at hs
    split at hs
    · rename_i hu; cases hs; exact ⟨answer _ (localLogin_unknown hu now), rfl⟩
    · cases hs
  | status => cases hs; exact ⟨answer _ rfl, rfl⟩

theorem respond_oneSetup {s : St τ} {r : Response τ} (h : OneSetup s) (hr : r.isToken = false) :
    OneSetup (respond s r) := by
  refine ⟨h.users, h.oneName, h.nameTaken, h.oneUser, ?_⟩
  simpa [respond, List.countP_cons, hr] using h.tokens

theorem erase_oneSetup {s : St τ} (h : OneSetup s) (u : String × String) :
    OneSetup { s with inserting := s.inserting.erase u } :=
  ⟨h.users, fun a ha b hb => h.oneName a (List.mem_of_mem_erase ha) b (List.mem_of_mem_erase hb),
    fun a ha n hn => h.nameTaken a (List.mem_of_mem_erase ha) n hn, h.oneUser, h.tokens⟩

/-- A user is inserted only while there is none: any other would have the same name. -/
theorem created_of_free {s : St τ} (h : OneSetup s) {u : String × String} (hu : u ∈ s.inserting)
    (hf : taken { s with inserting := s.inserting.erase u } u.1 = false) : s.created = [] := by
  rw [List.eq_nil_iff_forall_not_mem]
  intro n hn
  have he := h.nameTaken u hu n hn
  rw [← h.users, List.mem_map] at hn
  obtain ⟨w, hw, hwn⟩ := hn
  have := List.any_eq_false.mp hf w hw
  simp [hwn, he] at this

theorem insert_oneSetup {s : St τ} (h : OneSetup s) {u : String × String} (hu : u ∈ s.inserting)
    (hf : taken { s with inserting := s.inserting.erase u } u.1 = false) (minted : Bool) :
    OneSetup { insertUser { s with inserting := s.inserting.erase u } u with
      minting := if minted then u.1 :: s.minting else s.minting } := by
  have hc := created_of_free h hu hf
  have hnames := h.users
  have htok := h.tokens
  rw [hc] at hnames htok
  refine ⟨?_, fun a ha b hb => h.oneName a (List.mem_of_mem_erase ha) b (List.mem_of_mem_erase hb),
    fun a ha n hn => ?_, ?_, ?_⟩
  · simp [insertUser, hc, hnames]
  · simp only [insertUser, hc, List.mem_singleton] at hn
    rw [hn]
    exact h.oneName a (List.mem_of_mem_erase ha) u hu
  · simp [insertUser, hc]
  · simp only [insertUser, hc, List.length_singleton, List.length_nil] at htok ⊢
    cases minted with
    | true => simp only [if_true, List.length_cons]; omega
    | false => simp only [Bool.false_eq_true, if_false]; omega

theorem oneSetup_step {s s' : St τ} {e : Ev} (h : OneSetup s) (hg : Guarded libs cfg s e)
    (hs : step libs cfg s e = some s') : OneSetup s' ∧ s'.initial = s.initial := by
  cases e with
  | setupCheck b salt =>
    cases hs
    unfold setupCheck
    split
    · exact ⟨respond_oneSetup h rfl, rfl⟩
    · rename_i hu
      have hu : s.users = [] := by simpa using hu
      split
      · exact ⟨respond_oneSetup h rfl, rfl⟩
      · rename_i u hok
        have hname := setupBody_name hok
        have hsame := (hg hu (by rw [hok]; rfl)).2
        have hnone : s.created = [] := by rw [← h.users, hu]; rfl
        refine ⟨⟨h.users, fun a ha b' hb => ?_, fun a _ n hn => ?_, h.oneUser, h.tokens⟩, rfl⟩
        · have name : ∀ w ∈ u :: s.inserting, w.1 = b.name := by
            intro w hw
            rcases List.mem_cons.mp hw with rfl | hw
            · exact hname
            · exact hsame w hw
          rw [name a ha, name b' hb]
        · rw [hnone] at hn; cases hn
  | setupCommit u =>
    simp only [step] at hs
    split at hs
    · rename_i hu
      cases hs
      unfold setupCommit
      simp only
      split
      · exact ⟨respond_oneSetup (erase_oneSetup h u) rfl, rfl⟩
      · rename_i hf
        exact ⟨insert_oneSetup h hu (by simpa using hf) true, rfl⟩
    · cases hs
  | setupLost u landed =>
    simp only [step] at hs
    split at hs
    · rename_i hu
      cases hs
      split
      · rename_i hl
        simp only [Bool.and_eq_true, Bool.not_eq_true'] at hl
        exact ⟨insert_oneSetup h hu hl.2 false, rfl⟩
      · exact ⟨erase_oneSetup h u, rfl⟩
    · cases hs
  | setupMint username now =>
    simp only [step] at hs
    split at hs
    · rename_i hu
      cases hs
      refine ⟨⟨h.users, h.oneName, h.nameTaken, h.oneUser, ?_⟩, rfl⟩
      have hlen := List.length_erase_of_mem hu
      have hpos := List.length_pos_of_mem hu
      have htok := h.tokens
      simp only [respond, List.countP_cons, hlen]
      split <;> omega
    · cases hs
  | login b now =>
    simp only [step] at hs
    split at hs
    · rename_i hu; cases hs; exact ⟨respond_oneSetup h (localLogin_unknown hu now), rfl⟩
    · cases hs
  | status => cases hs; exact ⟨respond_oneSetup h rfl, rfl⟩

theorem not_adminToken {r : Response τ} (h : r.isToken = false) : ¬ AdminToken libs cfg r := by
  intro hx
  obtain ⟨t, now, roles, rfl, -⟩ := hx
  cases h

theorem pairwise_of_countP_le_one {rs : List (Response τ)} (h : rs.countP Response.isToken ≤ 1) :
    rs.Pairwise fun a b => ¬ (AdminToken libs cfg a ∧ AdminToken libs cfg b) := by
  induction rs with
  | nil => exact List.Pairwise.nil
  | cons r rs ih =>
    rw [List.countP_cons] at h
    refine List.Pairwise.cons (fun b hb hab => ?_) (ih (by omega))
    have token : ∀ {x : Response τ}, AdminToken libs cfg x → x.isToken = true := by
      intro x hx
      by_contra hn
      exact not_adminToken (by simpa using hn) hx
    have hpos := List.countP_pos_iff.mpr ⟨b, hb, token hab.2⟩
    rw [if_pos (token hab.1)] at h
    omega

end Guard

/-- In every run of guarded setup requests: outside setup mode no response carries a token
    that validates as admin, and from setup mode at most one user is created and at most
    one such token handed out. -/
theorem guarded_setup_safe {τ : Type} (libs : Libs τ) (cfg : Config) {s : St τ}
    (h : (machine libs cfg).ReachIf (Guarded libs cfg) s) : Safe libs cfg s := by
  have hinv : (resolveAuthMode cfg s.initial ≠ .setup → Closed s) ∧
      (resolveAuthMode cfg s.initial = .setup → OneSetup s) := by
    refine h.inv (P := fun s => (resolveAuthMode cfg s.initial ≠ .setup → Closed s) ∧
      (resolveAuthMode cfg s.initial = .setup → OneSetup s)) (fun s (hi : ∃ users, s = start users) => ?_)
      fun s e s' ⟨hc, ho⟩ hg (hst : step libs cfg s e = some s') => ?_
    · obtain ⟨users, rfl⟩ := hi
      refine ⟨fun _ => ⟨rfl, rfl, rfl, fun r hr => by cases hr⟩, fun hm => ?_⟩
      have hnil : users = [] := by
        by_contra hne
        simp only [start, resolveAuthMode] at hm
        split at hm
        · cases hm
        · split at hm
          · cases hm
          · simp [hne] at hm
      subst hnil
      exact ⟨rfl, fun u hu => (by cases hu), fun u hu => (by cases hu), Nat.zero_le _, Nat.le_refl _⟩
    · by_cases hm : resolveAuthMode cfg s.initial = .setup
      · obtain ⟨h1, h2⟩ := oneSetup_step (ho hm) hg hst
        exact ⟨fun hn => absurd (h2 ▸ hm) hn, fun _ => h1⟩
      · obtain ⟨h1, h2⟩ := closed_step hm (hc hm) hg hst
        exact ⟨fun _ => h1, fun hn => absurd (h2 ▸ hn) hm⟩
  refine ⟨fun hm r hr => not_adminToken ((hinv.1 hm).tokens r hr), fun hm => ?_⟩
  have ho := hinv.2 hm
  have hone := ho.oneUser
  have htok := ho.tokens
  exact ⟨hone, pairwise_of_countP_le_one (by omega)⟩

/-! ## Signed pairs -/

/-- Tokens that are their claims and the key they were signed with. -/
def pairs : Libs (Claims × String) where
  encode claims secret := (claims, secret)
  unverified t := some t.1
  decode now t secret :=
    if t.2 ≠ secret ∨ t.1.iss ≠ "errand-local" then .error .invalidToken
    else if t.1.exp ≤ now then .error .expiredSignature
    else .ok t.1
  oidc _ := .error ⟨401, "Authentication required"⟩
  hashpw password salt := salt ++ password
  checkpw password hash := hash.toList.drop (hash.length - password.length) == password.toList

/-- The signing secret a server makes for itself when it first starts. -/
def fresh : Config := ⟨fun _ => "", fun key => if key = jwtSigningSecret then some "k" else none⟩

/-- SSO through the environment. -/
def ssoConfigured : Config := { fresh with env := fun v => if v ∈ envKeys then "set" else "" }

def alice : Body := ⟨some "alice", some "secret"⟩

def bob : Body := ⟨some "bob", some "secret"⟩

/-- One setup request, from its check to its token. -/
def oneRequest (b : Body) : List Ev := [.setupCheck b "", .setupCommit (b.name, b.pass), .setupMint b.name 0]

theorem adminToken_of_setup {cfg : Config} (username : String) (hs : cfg.setting jwtSigningSecret = some "k") :
    AdminToken pairs cfg (setupToken pairs cfg 0 username) := by
  refine ⟨mintLocalJwt pairs 0 username "admin" "k", 0, ["admin"], by simp [setupToken, hs], ?_, by simp⟩
  simp [validateToken, pairs, mintLocalJwt, hs]

theorem first_setup_safe :
    ∃ s, (machine pairs fresh).exec (start []) (oneRequest alice) = some s ∧ s.created = ["alice"] ∧
      Safe pairs fresh s := by
  have h0 : (machine pairs fresh).ReachIf (Guarded pairs fresh) (start []) := .init ⟨_, rfl⟩
  have h1 := h0.step (.setupCheck alice "") (by intro _ _; exact ⟨by decide, by intro u hu; cases hu⟩) rfl
  have h2 := h1.step (.setupCommit ("alice", "secret")) (by trivial) rfl
  have h3 := h2.step (.setupMint "alice" 0) (by trivial) rfl
  exact ⟨_, rfl, rfl, guarded_setup_safe pairs fresh h3⟩

/-- SSO is configured and there is no local user: anybody can set one up, and is handed an
    admin token that validates. -/
theorem sso_setup_hands_out_admin :
    ¬ ∀ (cfg : Config) (s : St (Claims × String)), (machine pairs cfg).Reach s → Safe pairs cfg s := by
  intro h
  have hr : ∃ s, (machine pairs ssoConfigured).exec (start []) (oneRequest alice) = some s ∧ s.initial = [] ∧
      s.responses = [setupToken pairs ssoConfigured 0 "alice"] := ⟨_, rfl, rfl, rfl⟩
  obtain ⟨s, hs, hi, hresp⟩ := hr
  have hsafe := (h ssoConfigured s (Machine.Reach.exec (.init ⟨_, rfl⟩) hs)).1
  rw [hi] at hsafe
  refine hsafe (by decide) _ ?_ (adminToken_of_setup "alice" rfl)
  rw [hresp]
  exact List.mem_singleton.mpr rfl

/-- In setup mode, two setup requests that both look before either inserts make two users
    and hand out two admin tokens. -/
theorem two_setups_two_admins :
    ∃ s, (machine pairs fresh).exec (start [])
      [.setupCheck alice "", .setupCheck bob "", .setupCommit ("alice", "secret"), .setupCommit ("bob", "secret"),
       .setupMint "alice" 0, .setupMint "bob" 0] = some s ∧ s.created = ["bob", "alice"] ∧
      ∀ r ∈ s.responses, AdminToken pairs fresh r := by
  refine ⟨_, rfl, rfl, fun r hr => ?_⟩
  have hr : r = setupToken pairs fresh 0 "bob" ∨ r = setupToken pairs fresh 0 "alice" := by
    rcases List.mem_cons.mp hr with rfl | hr
    · exact .inl rfl
    · exact .inr (List.mem_singleton.mp hr)
  rcases hr with rfl | rfl
  · exact adminToken_of_setup "bob" rfl
  · exact adminToken_of_setup "alice" rfl

end Errand.Server.Auth

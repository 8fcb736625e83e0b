import Errand.Lib.Machine
import Errand.Server.Integrations

/-
  Errand.Server.TokenDisclosure — who gets a stored access token out of the integration
  and token-refresh endpoints.

  Requests of any senders come in any order, and a refresh gets its answer in a step of its
  own. In between the server's state may change in any way at all: a dispatch refreshes a
  token, the cloud sends one, bearers are issued, renewed and expire, the cloud connection
  comes and goes. Whether a sender may have a provider's token is judged when the request
  comes in.

  Proved:
  - `disclosed_iff_guarded`: access tokens go out, and refresh tokens are spent, for
    entitled senders only, in exactly the runs in which no unentitled sender's request to
    `/api/integrations/{provider}/refresh` gets as far as the cloud.
  - `anyone_refreshes`: an anonymous request gets an access token.
-/

namespace Errand.Server.TokenDisclosure

open Errand.Lib
open Errand.Server.Auth (Libs)
open Errand.Server.CloudStorage (Provider)
open Errand.Server.RefreshAuth
open Errand.Server.Integrations

/-! ## Runs -/

/-- Each entry of `pending`, `served` and `spent` comes with the rights its sender had
    when the request came in. -/
structure St where
  host : Host
  pending : List ((Provider → Bool) × Pending)
  served : List ((Provider → Bool) × Response)
  /-- The refresh tokens sent out. -/
  spent : List ((Provider → Bool) × Provider)

def start (host : Host) : St := ⟨host, [], [], []⟩

inductive Ev where
  | request (r : Request) (a : Answers)
  /-- A pending refresh gets its answer. -/
  | finish (i : Nat) (a : Answers)
  /-- Whatever else the server does. -/
  | elsewhere (host : Host)

section Steps

variable (libs : Libs String) (validCloudJwt : String → Bool)

def rights (s : St) (r : Request) (a : Answers) : Provider → Bool :=
  entitled libs validCloudJwt s.host.cfg a.now s.host.valkey r.sender

def record (s : St) (rights : Provider → Bool) : Handled → St
  | .served response host => { s with host := host, served := (rights, response) :: s.served }
  | .started w host =>
    { s with
      host := host
      pending := (rights, w) :: s.pending
      spent := if sends w then (rights, w.provider) :: s.spent else s.spent }

def step (s : St) : Ev → Option St
  | .request r a =>
    some (record s (rights libs validCloudJwt s r a) (handle libs validCloudJwt s.host a r))
  | .finish i a =>
    match s.pending[i]? with
    | none => none
    | some (rights, w) =>
      let x := finish s.host a w
      some { s with host := x.2, pending := s.pending.eraseIdx i, served := (rights, x.1) :: s.served }
  | .elsewhere host => some { s with host := host }

def machine : Machine St Ev := ⟨fun s => ∃ host, s = start host, step libs validCloudJwt⟩

/-- Access tokens went out, and refresh tokens were spent, for entitled senders only. -/
def Safe (s : St) : Prop :=
  (∀ x ∈ s.served, ∀ t ∈ x.2.tokens, x.1 t.provider = true) ∧ ∀ x ∈ s.spent, x.1 x.2 = true

/-- No unentitled sender's request to `/api/integrations/{provider}/refresh` gets as far
    as the cloud. -/
def Guarded (s : St) : Ev → Prop
  | .request r a => ∀ p, Through s.host r.route p → rights libs validCloudJwt s r a p = true
  | _ => True

end Steps

section Disclosure

variable {libs : Libs String} {validCloudJwt : String → Bool}

/-- Where each pending refresh stands: one through the cloud has something to send, any
    other was started by an entitled sender; and what it sent is on record. -/
def Inv (s : St) : Prop :=
  ∀ x ∈ s.pending, (x.2.kind = .internal → x.2.row.credentials.refreshToken.isEmpty = false) ∧
    (x.2.kind = .forced → x.1 x.2.provider = true) ∧ (sends x.2 = true → (x.1, x.2.provider) ∈ s.spent)

theorem served_inv {s : St} (hi : Inv s) (rights : Provider → Bool) (response : Response) (host : Host) :
    Inv (record s rights (.served response host)) := hi

theorem served_safe (s : St) (rights : Provider → Bool) {response : Response} (host : Host)
    (h : response.tokens = []) : Safe (record s rights (.served response host)) ↔ Safe s := by
  show (∀ x ∈ (rights, response) :: s.served, _) ∧ _ ↔ _
  rw [List.forall_mem_cons]
  constructor
  · intro hx
    obtain ⟨⟨-, h1⟩, h2⟩ := hx
    exact ⟨h1, h2⟩
  · intro hx
    obtain ⟨h1, h2⟩ := hx
    refine ⟨⟨?_, h1⟩, h2⟩
    intro t ht
    have ht : t ∈ response.tokens := ht
    rw [h] at ht
    exact absurd ht List.not_mem_nil

theorem started_inv {s : St} (hi : Inv s) {rights : Provider → Bool} {w : Pending} (host : Host)
    (h1 : w.kind = .internal → w.row.credentials.refreshToken.isEmpty = false)
    (h2 : w.kind = .forced → rights w.provider = true) : Inv (record s rights (.started w host)) := by
  intro x hx
  rcases List.mem_cons.mp hx with rfl | hx
  · refine ⟨h1, h2, fun hs => ?_⟩
    show _ ∈ if sends w then _ else _
    rw [if_pos hs]
    exact List.mem_cons_self ..
  · obtain ⟨k1, k2, k3⟩ := hi x hx
    refine ⟨k1, k2, fun hs => ?_⟩
    show _ ∈ if sends w then _ else _
    split
    · exact List.mem_cons_of_mem _ (k3 hs)
    · exact k3 hs

theorem started_safe (s : St) (rights : Provider → Bool) (w : Pending) (host : Host) :
    Safe (record s rights (.started w host)) ↔ Safe s ∧ (sends w = true → rights w.provider = true) := by
  show (_ ∧ ∀ x ∈ (if sends w then _ else _), _) ↔ _
  cases sends w with
  | true =>
    rw [if_pos rfl, List.forall_mem_cons]
    constructor
    · intro hx
      obtain ⟨h1, h, h2⟩ := hx
      exact ⟨⟨h1, h2⟩, fun _ => h⟩
    · intro hx
      obtain ⟨⟨h1, h2⟩, h⟩ := hx
      exact ⟨h1, h rfl, h2⟩
  | false =>
    rw [if_neg (by decide)]
    constructor
    · intro h
      exact ⟨h, fun hs => by cases hs⟩
    · intro h
      exact h.1

/-- What a request adds to the record is safe exactly if it is guarded: the one refresh an
    unentitled sender can start is the one through the cloud. -/
theorem request_step {s : St} (hi : Inv s) (r : Request) (a : Answers) {s' : St}
    (hs : step libs validCloudJwt s (.request r a) = some s') :
    Inv s' ∧ (Safe s' ↔ Safe s ∧ Guarded libs validCloudJwt s (.request r a)) := by
  cases hs
  rcases handle_cases s.host a r with ⟨response, host, hh, ht, hno⟩ | ⟨p, row, hh, hne, hthrough⟩ | ⟨p, row, host, hh, he, hno⟩
  · rw [hh]
    refine ⟨served_inv hi _ _ _, ?_⟩
    rw [served_safe s _ host ht]
    exact (and_iff_left fun p hp => absurd hp (hno p)).symm
  · rw [hh]
    refine ⟨started_inv hi _ (fun _ => hne) (fun h => by cases h), ?_⟩
    rw [started_safe]
    constructor
    · intro hx
      obtain ⟨hs, h⟩ := hx
      refine ⟨hs, fun q hq => ?_⟩
      obtain ⟨rfl, hsend⟩ := (hthrough q).mp hq
      exact h hsend
    · intro hx
      obtain ⟨hs, h⟩ := hx
      exact ⟨hs, fun hsend => h p ((hthrough p).mpr ⟨rfl, hsend⟩)⟩
  · rw [hh]
    refine ⟨started_inv hi _ (fun h => by cases h) (fun _ => he), ?_⟩
    rw [started_safe]
    constructor
    · intro hx
      obtain ⟨hs, -⟩ := hx
      exact ⟨hs, fun q hq => absurd hq (hno q)⟩
    · intro hx
      obtain ⟨hs, -⟩ := hx
      exact ⟨hs, fun _ => he⟩

theorem finish_step {s : St} (hi : Inv s) (i : Nat) (a : Answers) {s' : St}
    (hs : step libs validCloudJwt s (.finish i a) = some s') : Inv s' ∧ (Safe s' ↔ Safe s) := by
  simp only [step] at hs
  split at hs
  · cases hs
  · rename_i rights w hw
    cases hs
    obtain ⟨h1, h2, h3⟩ := hi _ (List.mem_of_getElem? hw)
    refine ⟨fun x hx => hi x (List.mem_of_mem_eraseIdx hx), ?_⟩
    show (∀ x ∈ (rights, (finish s.host a w).1) :: s.served, _) ∧ _ ↔ _
    rw [List.forall_mem_cons]
    constructor
    · intro h
      obtain ⟨⟨-, hserved⟩, hspent⟩ := h
      exact ⟨hserved, hspent⟩
    · intro h
      obtain ⟨hserved, hspent⟩ := h
      refine ⟨⟨?_, hserved⟩, hspent⟩
      intro t ht
      obtain ⟨hp, hrelay⟩ := finish_tokens ht
      rw [hp]
      cases hk : w.kind with
      | forced => exact h2 hk
      | internal =>
        -- the token was asked for with the refresh token on record
        apply hspent _ (h3 ?_)
        simp [sends, h1 hk, hrelay hk]

theorem step_safe {s s' : St} {e : Ev} (hi : Inv s) (hs : step libs validCloudJwt s e = some s') :
    Inv s' ∧ (Safe s' ↔ Safe s ∧ Guarded libs validCloudJwt s e) := by
  cases e with
  | request r a => exact request_step hi r a hs
  | finish i a =>
    obtain ⟨hi', h⟩ := finish_step hi i a hs
    exact ⟨hi', h.trans (and_iff_left trivial).symm⟩
  | elsewhere host =>
    cases hs
    exact ⟨hi, (and_iff_left trivial).symm⟩

end Disclosure

/-- Access tokens go out, and refresh tokens are spent, for senders entitled to that
    provider's only, in exactly the runs in which every request through
    `/api/integrations/{provider}/refresh` that gets as far as the cloud is an entitled
    sender's. A task's bearer entitles it to its own provider's token and no other. -/
theorem disclosed_iff_guarded (libs : Libs String) (validCloudJwt : String → Bool) (host : Host) {es : List Ev} {s : St}
    (h : (machine libs validCloudJwt).exec (start host) es = some s) :
    Safe s ↔ (machine libs validCloudJwt).Meets (Guarded libs validCloudJwt) (start host) es := by
  have hinv : Inv (start host) := by intro x hx; cases hx
  have hsafe : Safe (start host) := by
    constructor
    · intro x hx
      cases hx
    · intro x hx
      cases hx
  have hrun := Machine.exec_iff_meets (P := Safe) (fun _ _ _ hi hs => step_safe hi hs) hinv h
  exact hrun.trans (and_iff_right hsafe)

/-! ## Runs -/

/-- Libraries that know no token. -/
def strict : Libs String :=
  { encode := fun _ _ => ""
    unverified := fun _ => none
    decode := fun _ _ _ => .error .invalidToken
    oidc := fun _ => .error ⟨401, "Invalid token"⟩
    hashpw := fun password _ => password
    checkpw := fun password hash => password = hash }

/-- A server with Google's credentials stored, a task's bearer for them, and the cloud to
    refresh them through. -/
def connected : Host :=
  { rows := fun p => if p = .googleDrive then some ⟨⟨"old", "refresh", 0⟩, ⟨"a@b", "A", []⟩⟩ else none
    cloudAvailable := true
    wsConnected := true
    ws := true
    client := some true
    valkey := some ⟨0, fun key => if key = "google_refresh_token:t1" then some ("task", 60) else none⟩
    cfg := ⟨fun _ => "", fun _ => none⟩
    tenantId := "common"
    workspaceTtl := 86400 }

/-- The cloud has a token. -/
def relayed : Answers :=
  { now := 100
    valkeyRaises := false
    wsSendRaises := false
    state := "s"
    exchange := .failed
    userinfo := ("", "")
    endpoint := .failed
    relay := some ⟨"new", some 3600, none⟩
    http := .failed
    commit := .ok
    httpCommit := .ok }

def anonymous : Sender := ⟨none, false, ""⟩

def task : Sender := ⟨some "t1", false, ""⟩

def post (route : Route) (sender : Sender) : Ev := .request ⟨route, sender, "http://errand"⟩ relayed

theorem task_gets_its_own_token :
    ∃ s, (machine strict fun _ => false).exec (start connected)
      [post .googleRefreshToken task, .finish 0 relayed, post .onedriveRefreshToken task] = some s ∧
      s.served.map (·.2) =
        [.error ⟨401, "invalid or expired bearer token"⟩, .token ⟨.googleDrive, "new"⟩ 3700] ∧ Safe s := by
  have guarded : ∀ (s : St) (route : Route), (∀ provider, route ≠ .refresh provider) →
      Guarded strict (fun _ => false) s (post route task) := by
    intro s route hr p hx
    obtain ⟨provider, hp, -⟩ := hx
    exact absurd hp (hr provider)
  have hr : ∃ s, (machine strict fun _ => false).exec (start connected)
      [post .googleRefreshToken task, .finish 0 relayed, post .onedriveRefreshToken task] = some s ∧
      s.served.map (·.2) =
        [.error ⟨401, "invalid or expired bearer token"⟩, .token ⟨.googleDrive, "new"⟩ 3700] := ⟨_, rfl, rfl⟩
  obtain ⟨s, hs, hserved⟩ := hr
  refine ⟨s, hs, hserved, (disclosed_iff_guarded strict (fun _ => false) connected hs).mpr ?_⟩
  refine ⟨guarded _ _ (by intro _ h; cases h), fun _ _ => ⟨trivial, fun _ _ => ⟨?_, fun _ _ => trivial⟩⟩⟩
  exact guarded _ _ (by intro _ h; cases h)

/-- Nobody has to be anybody to refresh through the cloud. -/
theorem anyone_refreshes :
    ¬ ∀ (libs : Libs String) (validCloudJwt : String → Bool) (host : Host) (es : List Ev) (s : St),
      (machine libs validCloudJwt).exec (start host) es = some s → Safe s := by
  intro h
  have hsafe := h strict (fun _ => false) connected [post (.refresh "google_drive") anonymous, .finish 0 relayed] _ rfl
  have hright := hsafe.1 _ (List.mem_cons_self ..) ⟨.googleDrive, "new"⟩ (List.mem_singleton.mpr rfl)
  exact absurd hright (by decide)

end Errand.Server.TokenDisclosure

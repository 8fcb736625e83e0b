import Errand.Lib.Dict
import Errand.Lib.LockTable
import Errand.Lib.Machine

/-
  Errand.Server.TriggerEndpoints — webhook triggers and their endpoints on the cloud
  (`create_trigger`, `update_trigger`, `delete_trigger` of `webhook_trigger_routes.py`;
  `register_webhook_trigger_with_cloud`, `reconcile_webhook_trigger_endpoints`,
  `revoke_webhook_trigger_in_cloud` and the triggers' locks of `cloud_endpoints.py`).

  An update commits its fields, takes the trigger's lock, reads the row again and registers
  it; a deletion takes the lock, reads again, revokes and deletes; a pass lists each
  integration and registers again, under the lock and after another look at the row, each
  trigger whose token was not listed. A creation commits its row and registers it with
  neither lock nor second look. A lock is made when it is first asked for and forgotten with
  its trigger; who waits for a forgotten one has the old object.

  The operations are any number, each in its steps between awaits. The cloud is connected
  and every call succeeds: a registration replaces what there is for the trigger, with the
  same token or a new one, a deletion removes the endpoint it names, if it is there, and a
  listing is what is live.

  Proved:
  - `endpoints_matched`: after every run in which no operation reads a trigger again while its creation
    is still registering, and in whose end all have finished, each endpoint is of a trigger
    there is, and each trigger's token is live under its source.
  - `an_endpoint_left_behind`: a trigger is deleted while its creation registers, and the
    endpoint stays.
-/

namespace Errand.Server.TriggerEndpoints

open Errand.Lib

inductive Source where
  | jira
  | github
  deriving DecidableEq, Repr

/-- An endpoint's token: the trigger it was issued for, and its place among those issued. -/
structure Token where
  trigger : Nat
  serial : Nat
  deriving DecidableEq, Repr

structure Row where
  source : Source
  cloudEndpointToken : Option Token
  deriving DecidableEq, Repr

structure Endpoint where
  integration : Source
  token : Token
  deriving DecidableEq, Repr

/-- A pass between two triggers: what it has listed, and what it has still to visit. -/
structure Visit where
  integration : Source
  liveTokens : List Token
  group : List (Nat × Option Token)
  groups : List (Source × List (Nat × Option Token))
  deriving DecidableEq, Repr

/-- Who works on a trigger under its lock. -/
inductive Job where
  | update
  | delete
  | pass (visit : Visit)
  deriving DecidableEq, Repr

/-- How far an operation is: `i` is the trigger it works on, `l` the lock it has asked for. -/
inductive Op where
  | creating (i : Nat) (source : Source)
  | created (i : Nat) (token : Token)
  | updating (i : Nat) (source : Option Source)
  | updated (i : Nat)
  | deleting (i : Nat)
  | grouped (groups : List (Source × List (Nat × Option Token)))
  | visiting (visit : Visit)
  | waiting (job : Job) (i l : Nat)
  | holding (job : Job) (i l : Nat)
  | posting (job : Job) (i l : Nat) (source : Source)
  | posted (job : Job) (i l : Nat) (token : Token)
  | revoking (i l : Nat) (source : Source) (token : Option Token)
  | revoked (i l : Nat)
  deriving DecidableEq, Repr

structure St where
  rows : List (Nat × Row)
  nextId : Nat
  /-- The endpoints the cloud holds, by their triggers. -/
  cloud : List (Nat × Endpoint)
  /-- How many tokens the cloud has issued. -/
  tokens : Nat
  /-- `_trigger_locks`: the lock object of each trigger. -/
  registry : List (Nat × Nat)
  nextLock : Nat
  /-- The operation that holds each lock object. -/
  locks : LockTable Nat Nat
  ops : List (Nat × Op)

inductive Event where
  | create (j : Nat) (source : Source)
  /-- An update of what the cloud is told of a trigger. -/
  | update (j i : Nat) (source : Option Source)
  | delete (j i : Nat)
  /-- A pass takes its snapshot. -/
  | begin (j : Nat)
  /-- The commit of an update's fields. -/
  | save (j : Nat)
  /-- The name is another trigger's. -/
  | conflict (j : Nat)
  /-- The next integration is listed, or the pass ends. -/
  | list (j : Nat)
  /-- The next trigger: its lock is asked for, unless its token is live. -/
  | visit (j : Nat)
  | ask (j : Nat)
  | acquire (j : Nat)
  /-- The row is read again under the lock. -/
  | read (j : Nat)
  /-- The registration at the cloud; whether an endpoint there gets a new token. -/
  | post (j : Nat) (fresh : Bool)
  | commit (j : Nat)
  | revoke (j : Nat)
  | remove (j : Nat)
  deriving DecidableEq, Repr

/-- The operation goes on, or has ended. -/
def setOp (j : Nat) (op : Option Op) (s : St) : St :=
  { s with ops := match op with
      | some op => Dict.set s.ops j op
      | none => Dict.pop s.ops j }

/-- `by_integration`. -/
def byIntegration (rows : List (Nat × Row)) : List (Source × List (Nat × Option Token)) :=
  rows.foldl (fun groups row =>
    Dict.set groups row.2.source
      ((Dict.get? groups row.2.source).getD [] ++ [(row.1, row.2.cloudEndpointToken)])) []

/-- `check_existing_endpoints`, as a set of tokens. -/
def liveTokens (integration : Source) (s : St) : List Token :=
  (s.cloud.filter fun item => item.2.integration = integration).map fun item => item.2.token

/-- `trigger_endpoint_lock`. -/
def askLock (j : Nat) (job : Job) (i : Nat) (s : St) : St :=
  match Dict.get? s.registry i with
  | some l => setOp j (some (.waiting job i l)) s
  | none =>
    setOp j (some (.waiting job i s.nextLock))
      { s with registry := Dict.set s.registry i s.nextLock, nextLock := s.nextLock + 1 }

/-- `forget_trigger_lock`. -/
def forgetLock (i : Nat) (s : St) : St := { s with registry := Dict.pop s.registry i }

/-- What an operation goes on with behind the lock. -/
def Job.next : Job → Option Op
  | .pass visit => some (.visiting visit)
  | _ => none

def leave (j : Nat) (job : Job) (s : St) : St := setOp j job.next { s with locks := s.locks.releaseAll j }

/-- The token that a registration of a trigger is answered with. -/
def issue (i : Nat) (fresh : Bool) (s : St) : Token :=
  match Dict.get? s.cloud i with
  | some endpoint => if fresh then ⟨i, s.tokens⟩ else endpoint.token
  | none => ⟨i, s.tokens⟩

/-- `POST /api/endpoints`. -/
def post (i : Nat) (source : Source) (fresh : Bool) (s : St) : St :=
  { s with cloud := Dict.set s.cloud i ⟨source, issue i fresh s⟩, tokens := s.tokens + 1 }

/-- The commit of a registration's token; it raises if the row has gone. -/
def storeToken (i : Nat) (token : Token) (s : St) : St :=
  match Dict.get? s.rows i with
  | some row => { s with rows := Dict.set s.rows i { row with cloudEndpointToken := some token } }
  | none => s

/-- `DELETE /api/endpoints`: by the token, or by the integration and the trigger. -/
def revoke (i : Nat) (source : Source) (token : Option Token) (s : St) : St :=
  match token with
  | some token =>
    if (Dict.get? s.cloud token.trigger).any (fun endpoint => endpoint.token = token) then
      { s with cloud := Dict.pop s.cloud token.trigger }
    else s
  | none =>
    if (Dict.get? s.cloud i).any (fun endpoint => endpoint.integration = source) then
      { s with cloud := Dict.pop s.cloud i }
    else s

/-- The second look at the row, and what follows from it. -/
def readAgain (j : Nat) (job : Job) (i l : Nat) (s : St) : St :=
  match job, Dict.get? s.rows i with
  | .update, some row => setOp j (some (.posting .update i l row.source)) s
  | .update, none => leave j .update s
  | .delete, some row => setOp j (some (.revoking i l row.source row.cloudEndpointToken)) s
  | .delete, none => forgetLock i (leave j .delete s)
  | .pass visit, some row =>
    if row.source ≠ visit.integration then leave j (.pass visit) s
    else if row.cloudEndpointToken.any (fun token => token ∈ visit.liveTokens) then leave j (.pass visit) s
    else setOp j (some (.posting (.pass visit) i l row.source)) s
  | .pass visit, none => leave j (.pass visit) s

def step (s : St) : Event → Option St
  | .create j source =>
    if Dict.get? s.ops j = none then
      some (setOp j (some (.creating s.nextId source))
        { s with rows := Dict.set s.rows s.nextId ⟨source, none⟩, nextId := s.nextId + 1 })
    else none
  | .update j i source =>
    if Dict.get? s.ops j = none ∧ (Dict.get? s.rows i).isSome then some (setOp j (some (.updating i source)) s) else none
  | .delete j i =>
    if Dict.get? s.ops j = none ∧ (Dict.get? s.rows i).isSome then some (setOp j (some (.deleting i)) s) else none
  | .begin j => if Dict.get? s.ops j = none then some (setOp j (some (.grouped (byIntegration s.rows))) s) else none
  | .save j =>
    match Dict.get? s.ops j with
    | some (.updating i source) =>
      match Dict.get? s.rows i with
      | some row =>
        some (setOp j (some (.updated i))
          { s with rows := Dict.set s.rows i { row with source := source.getD row.source } })
      | none => some (setOp j none s)
    | _ => none
  | .conflict j =>
    match Dict.get? s.ops j with
    | some (.updating _ _) => some (setOp j none s)
    | _ => none
  | .list j =>
    match Dict.get? s.ops j with
    | some (.grouped ((integration, group) :: groups)) =>
      some (setOp j (some (.visiting ⟨integration, liveTokens integration s, group, groups⟩)) s)
    | some (.grouped []) => some (setOp j none s)
    | _ => none
  | .visit j =>
    match Dict.get? s.ops j with
    | some (.visiting ⟨integration, live, (i, token) :: group, groups⟩) =>
      if token.any (fun token => token ∈ live) then some (setOp j (some (.visiting ⟨integration, live, group, groups⟩)) s)
      else some (askLock j (.pass ⟨integration, live, group, groups⟩) i s)
    | some (.visiting ⟨_, _, [], groups⟩) => some (setOp j (some (.grouped groups)) s)
    | _ => none
  | .ask j =>
    match Dict.get? s.ops j with
    | some (.updated i) => some (askLock j .update i s)
    | some (.deleting i) => some (askLock j .delete i s)
    | _ => none
  | .acquire j =>
    match Dict.get? s.ops j with
    | some (.waiting job i l) =>
      if s.locks.grants j l then some (setOp j (some (.holding job i l)) { s with locks := s.locks.lock j l }) else none
    | _ => none
  | .read j =>
    match Dict.get? s.ops j with
    | some (.holding job i l) => some (readAgain j job i l s)
    | _ => none
  | .post j fresh =>
    match Dict.get? s.ops j with
    | some (.creating i source) => some (setOp j (some (.created i (issue i fresh s))) (post i source fresh s))
    | some (.posting job i l source) => some (setOp j (some (.posted job i l (issue i fresh s))) (post i source fresh s))
    | _ => none
  | .commit j =>
    match Dict.get? s.ops j with
    | some (.created i token) => some (setOp j none (storeToken i token s))
    | some (.posted job i _ token) => some (leave j job (storeToken i token s))
    | _ => none
  | .revoke j =>
    match Dict.get? s.ops j with
    | some (.revoking i l source token) => some (setOp j (some (.revoked i l)) (revoke i source token s))
    | _ => none
  | .remove j =>
    match Dict.get? s.ops j with
    | some (.revoked i _) => some (forgetLock i (leave j .delete { s with rows := Dict.pop s.rows i }))
    | _ => none

/-- Endpoints and triggers correspond. -/
structure Matched (s : St) : Prop where
  endpoint : ∀ i endpoint, Dict.get? s.cloud i = some endpoint → (Dict.get? s.rows i).isSome
  token : ∀ i row, Dict.get? s.rows i = some row → ∃ token, row.cloudEndpointToken = some token ∧
    Dict.get? s.cloud i = some ⟨row.source, token⟩

/-- A process starts on triggers that have their endpoints. -/
structure Start (s : St) : Prop where
  matched : Matched s
  rows : ∀ item ∈ s.rows, item.1 < s.nextId
  tokens : ∀ i endpoint, Dict.get? s.cloud i = some endpoint → endpoint.token.trigger = i
  ops : s.ops = []
  registry : s.registry = []
  locks : s.locks = LockTable.empty

def machine : Machine St Event := ⟨Start, step⟩

/-- A trigger that is being registered by its creation. -/
def Op.creates (op : Op) (i : Nat) : Bool :=
  match op with
  | .creating k _ => k = i
  | .created k _ => k = i
  | _ => false

/-- Nothing reads a trigger again before its creation has finished. -/
def Registered (s : St) : Event → Prop
  | .read j => ∀ job i l, Dict.get? s.ops j = some (.holding job i l) →
      ∀ k op, Dict.get? s.ops k = some op → op.creates i = false
  | _ => True

/-! ## The invariant -/

/-- The trigger whose row, endpoint and token an operation has in its hands. -/
def Op.active : Op → Option Nat
  | .creating i _ => some i
  | .created i _ => some i
  | .posting _ i _ _ => some i
  | .posted _ i _ _ => some i
  | .revoking i _ _ _ => some i
  | .revoked i _ => some i
  | _ => none

/-- The trigger and the lock object an operation holds or waits for. -/
def Op.asked : Op → Option (Nat × Nat)
  | .waiting _ i l => some (i, l)
  | .holding _ i l => some (i, l)
  | .posting _ i l _ => some (i, l)
  | .posted _ i l _ => some (i, l)
  | .revoking i l _ _ => some (i, l)
  | .revoked i l => some (i, l)
  | _ => none

def Op.held (op : Op) : Option (Nat × Nat) :=
  match op with
  | .waiting _ _ _ => none
  | _ => op.asked

/-- The trigger that an update has saved and will yet read again. -/
def Op.pending : Op → Option Nat
  | .updated i => some i
  | .waiting .update i _ => some i
  | .holding .update i _ => some i
  | _ => none

def idsOf (groups : List (Source × List (Nat × Option Token))) : List Nat := groups.flatMap fun group => group.2.map Prod.fst

def Visit.ids (visit : Visit) : List Nat := visit.group.map Prod.fst ++ idsOf visit.groups

def Job.ids : Job → List Nat
  | .pass visit => visit.ids
  | _ => []

/-- The triggers an operation works on, or will. -/
def Op.ids : Op → List Nat
  | .creating i _ => [i]
  | .created i _ => [i]
  | .updating i _ => [i]
  | .updated i => [i]
  | .deleting i => [i]
  | .grouped groups => idsOf groups
  | .visiting visit => visit.ids
  | .waiting job i _ => i :: job.ids
  | .holding job i _ => i :: job.ids
  | .posting job i _ _ => i :: job.ids
  | .posted job i _ _ => i :: job.ids
  | .revoking i _ _ _ => [i]
  | .revoked i _ => [i]

def Pending (s : St) (i : Nat) : Prop := ∃ j op, Dict.get? s.ops j = some op ∧ op.pending = some i

/-- An endpoint under the trigger's source, or under one that an update will replace. -/
def Fits (s : St) (i : Nat) (source : Source) (row : Row) : Prop := source = row.source ∨ Pending s i

def OpInv (s : St) : Op → Prop
  | .creating i source => ∃ row, Dict.get? s.rows i = some row ∧ row.cloudEndpointToken = none ∧
      Dict.get? s.cloud i = none ∧ Fits s i source row
  | .created i token => ∃ row source, Dict.get? s.rows i = some row ∧ row.cloudEndpointToken = none ∧
      Dict.get? s.cloud i = some ⟨source, token⟩ ∧ Fits s i source row
  | .posting _ i _ source => ∃ row endpoint, Dict.get? s.rows i = some row ∧ Dict.get? s.cloud i = some endpoint ∧
      row.cloudEndpointToken = some endpoint.token ∧ Fits s i source row
  | .posted _ i _ token => ∃ row source, Dict.get? s.rows i = some row ∧ Dict.get? s.cloud i = some ⟨source, token⟩ ∧
      Fits s i source row
  | .revoking i _ _ token => ∃ row endpoint, Dict.get? s.rows i = some row ∧ Dict.get? s.cloud i = some endpoint ∧
      row.cloudEndpointToken = some endpoint.token ∧ token = row.cloudEndpointToken
  | .revoked i _ => ∃ row, Dict.get? s.rows i = some row ∧ Dict.get? s.cloud i = none
  | _ => True

/-- A trigger that no operation has in its hands. -/
def Calm (s : St) (i : Nat) : Prop :=
  match Dict.get? s.rows i with
  | some row => ∃ endpoint, Dict.get? s.cloud i = some endpoint ∧ row.cloudEndpointToken = some endpoint.token ∧
      Fits s i endpoint.integration row
  | none => Dict.get? s.cloud i = none

structure Agree (s : St) : Prop where
  own : ∀ i endpoint, Dict.get? s.cloud i = some endpoint → endpoint.token.trigger = i
  ops : ∀ j op, Dict.get? s.ops j = some op → OpInv s op
  sole : ∀ j k op op' i, Dict.get? s.ops j = some op → Dict.get? s.ops k = some op' → op.active = some i →
    op'.active = some i → j = k
  calm : ∀ i, (∀ j op, Dict.get? s.ops j = some op → op.active ≠ some i) → Calm s i

structure Guard (s : St) : Prop where
  rows : ∀ item ∈ s.rows, item.1 < s.nextId
  ids : ∀ j op, Dict.get? s.ops j = some op → ∀ i ∈ op.ids, i < s.nextId
  held : ∀ j op i l, Dict.get? s.ops j = some op → op.held = some (i, l) → s.locks.Holds j l
  registered : ∀ j op i l, Dict.get? s.ops j = some op → op.asked = some (i, l) → (Dict.get? s.rows i).isSome →
    Dict.get? s.registry i = some l

structure Inv (s : St) : Prop where
  agree : Agree s
  guard : Guard s

theorem start_inv {s : St} (h : Start s) : Inv s := by
  have hnone : ∀ j op, Dict.get? s.ops j ≠ some op := by
    intro j op hget
    rw [h.ops] at hget
    cases hget
  constructor
  · refine ⟨h.tokens, ?_, ?_, ?_⟩
    · intro j op hget
      exact absurd hget (hnone j op)
    · intro j k op op' i hget
      exact absurd hget (hnone j op)
    · intro i _
      unfold Calm
      split
      · rename_i row hrow
        obtain ⟨token, htoken, hcloud⟩ := h.matched.token i row hrow
        exact ⟨_, hcloud, htoken, .inl rfl⟩
      · rename_i hrow
        cases hcloud : Dict.get? s.cloud i with
        | none => rfl
        | some endpoint =>
          have hsome := h.matched.endpoint i endpoint hcloud
          rw [hrow] at hsome
          cases hsome
  · refine ⟨h.rows, ?_, ?_, ?_⟩
    · intro j op hget
      exact absurd hget (hnone j op)
    · intro j op i l hget
      exact absurd hget (hnone j op)
    · intro j op i l hget
      exact absurd hget (hnone j op)

/-! ## The operations of a state -/

theorem get_setOp (j : Nat) (op : Option Op) (s : St) (k : Nat) :
    Dict.get? (setOp j op s).ops k = if j = k then op else Dict.get? s.ops k := by
  unfold setOp
  cases op with
  | some op => exact Dict.get?_set ..
  | none =>
    by_cases hjk : j = k
    · rw [if_pos hjk, ← hjk]
      exact Dict.get?_pop_self s.ops j
    · rw [if_neg hjk]
      exact Dict.get?_pop_other s.ops hjk

theorem active_ids {op : Op} {i : Nat} (h : op.active = some i) : i ∈ op.ids := by
  cases op <;> cases h <;> exact List.mem_cons_self ..

theorem asked_ids {op : Op} {i l : Nat} (h : op.asked = some (i, l)) : i ∈ op.ids := by
  cases op <;> cases h <;> exact List.mem_cons_self ..

theorem asked_of_held {op : Op} {i l : Nat} (h : op.held = some (i, l)) : op.asked = some (i, l) := by
  cases op <;> first | cases h; rfl | cases h

/-- An operation with a trigger in its hands has created it or holds its lock. -/
theorem active_cases {op : Op} {i : Nat} (h : op.active = some i) :
    op.creates i = true ∨ ∃ l, op.held = some (i, l) := by
  cases op <;> cases h
  · exact .inl (decide_eq_true rfl)
  · exact .inl (decide_eq_true rfl)
  · exact .inr ⟨_, rfl⟩
  · exact .inr ⟨_, rfl⟩
  · exact .inr ⟨_, rfl⟩
  · exact .inr ⟨_, rfl⟩

/-- A trigger in hand is there. -/
theorem OpInv.row {s : St} {op : Op} {i : Nat} (h : OpInv s op) (hactive : op.active = some i) :
    (Dict.get? s.rows i).isSome = true := by
  cases op <;> cases hactive
  · obtain ⟨row, hrow, -⟩ := h
    rw [hrow]
    rfl
  · obtain ⟨row, _, hrow, -⟩ := h
    rw [hrow]
    rfl
  · obtain ⟨row, _, hrow, -⟩ := h
    rw [hrow]
    rfl
  · obtain ⟨row, _, hrow, -⟩ := h
    rw [hrow]
    rfl
  · obtain ⟨row, _, hrow, -⟩ := h
    rw [hrow]
    rfl
  · obtain ⟨row, hrow, -⟩ := h
    rw [hrow]
    rfl

theorem OpInv.of_inactive {s : St} {op : Op} (h : op.active = none) : OpInv s op := by
  cases op <;> trivial

theorem Fits.mono {s s' : St} {i : Nat} {source : Source} {row : Row} (h : Fits s i source row)
    (hpending : Pending s i → Pending s' i) : Fits s' i source row := h.imp id hpending

/-- What an operation relies on is its trigger's. -/
theorem OpInv.frame {s s' : St} {op : Op} {i : Nat} (h : OpInv s op) (hactive : op.active = some i)
    (hrows : Dict.get? s'.rows i = Dict.get? s.rows i) (hcloud : Dict.get? s'.cloud i = Dict.get? s.cloud i)
    (hpending : Pending s i → Pending s' i) : OpInv s' op := by
  cases op <;> cases hactive
  · obtain ⟨row, hrow, htoken, hnone, hfits⟩ := h
    exact ⟨row, hrows.trans hrow, htoken, hcloud.trans hnone, hfits.mono hpending⟩
  · obtain ⟨row, source, hrow, htoken, hsome, hfits⟩ := h
    exact ⟨row, source, hrows.trans hrow, htoken, hcloud.trans hsome, hfits.mono hpending⟩
  · obtain ⟨row, endpoint, hrow, hsome, htoken, hfits⟩ := h
    exact ⟨row, endpoint, hrows.trans hrow, hcloud.trans hsome, htoken, hfits.mono hpending⟩
  · obtain ⟨row, source, hrow, hsome, hfits⟩ := h
    exact ⟨row, source, hrows.trans hrow, hcloud.trans hsome, hfits.mono hpending⟩
  · obtain ⟨row, endpoint, hrow, hsome, htoken, hsame⟩ := h
    exact ⟨row, endpoint, hrows.trans hrow, hcloud.trans hsome, htoken, hsame⟩
  · obtain ⟨row, hrow, hnone⟩ := h
    exact ⟨row, hrows.trans hrow, hcloud.trans hnone⟩

theorem Calm.frame {s s' : St} {i : Nat} (h : Calm s i) (hrows : Dict.get? s'.rows i = Dict.get? s.rows i)
    (hcloud : Dict.get? s'.cloud i = Dict.get? s.cloud i)
    (hpending : (Dict.get? s.rows i).isSome = true → Pending s i → Pending s' i) : Calm s' i := by
  unfold Calm at h ⊢
  rw [hrows]
  split at h
  · rename_i row hrow
    obtain ⟨endpoint, hsome, htoken, hfits⟩ := h
    refine ⟨endpoint, hcloud.trans hsome, htoken, hfits.mono ?_⟩
    exact hpending (by rw [hrow]; rfl)
  · exact hcloud.trans h

/-- An operation's step takes no other one's pending update away. -/
theorem pending_step {s s' : St} {j : Nat} {op : Option Op} {i : Nat}
    (hops : ∀ k, Dict.get? s'.ops k = if j = k then op else Dict.get? s.ops k)
    (hkeep : ∀ old, Dict.get? s.ops j = some old → old.pending = some i → ∃ new, op = some new ∧ new.pending = some i)
    (h : Pending s i) : Pending s' i := by
  obtain ⟨k, old, hk, hold⟩ := h
  by_cases hjk : j = k
  · subst hjk
    obtain ⟨new, hnew, hpending⟩ := hkeep old hk hold
    exact ⟨j, new, by rw [hops, if_pos rfl, hnew], hpending⟩
  · exact ⟨k, old, by rw [hops, if_neg hjk, hk], hold⟩

/-! ## How triggers and endpoints change -/

/-- An operation does what touches neither rows nor endpoints, with nothing in its hands. -/
theorem Agree.quiet {s s' : St} {j : Nat} {op : Option Op} (h : Agree s)
    (hops : ∀ k, Dict.get? s'.ops k = if j = k then op else Dict.get? s.ops k) (hrows : s'.rows = s.rows)
    (hcloud : s'.cloud = s.cloud) (hold : ∀ old, Dict.get? s.ops j = some old → old.active = none)
    (hnew : ∀ new, op = some new → new.active = none)
    (hkeep : ∀ old i, Dict.get? s.ops j = some old → old.pending = some i → (Dict.get? s.rows i).isSome = true →
      ∃ new, op = some new ∧ new.pending = some i) : Agree s' := by
  have hactive : ∀ k o i, Dict.get? s'.ops k = some o → o.active = some i → Dict.get? s.ops k = some o := by
    intro k o i hk ho
    rw [hops] at hk
    split at hk
    · rw [hnew o hk] at ho
      cases ho
    · exact hk
  have hpending : ∀ i, (Dict.get? s.rows i).isSome = true → Pending s i → Pending s' i := by
    intro i hi
    exact pending_step hops fun old hj hp => hkeep old i hj hp hi
  refine ⟨?_, ?_, ?_, ?_⟩
  · rw [hcloud]
    exact h.own
  · intro k o hk
    cases ho : o.active with
    | none => exact .of_inactive ho
    | some i =>
      have hk' := hactive k o i hk ho
      have hinv := h.ops k o hk'
      exact hinv.frame ho (by rw [hrows]) (by rw [hcloud]) (hpending i (hinv.row ho))
  · intro k k' o o' i hk hk' ho ho'
    exact h.sole k k' o o' i (hactive k o i hk ho) (hactive k' o' i hk' ho') ho ho'
  · intro i hi
    refine (h.calm i ?_).frame (by rw [hrows]) (by rw [hcloud]) (hpending i)
    intro k o hk ho
    by_cases hjk : j = k
    · subst hjk
      rw [hold o hk] at ho
      cases ho
    · refine hi k o ?_ ho
      rw [hops, if_neg hjk]
      exact hk

/-- An operation changes the row or the endpoint of a trigger that no other has in its
    hands. -/
theorem Agree.change {s s' : St} {j i : Nat} {op : Option Op} (h : Agree s)
    (hops : ∀ k, Dict.get? s'.ops k = if j = k then op else Dict.get? s.ops k)
    (hrows : ∀ k, i ≠ k → Dict.get? s'.rows k = Dict.get? s.rows k)
    (hcloud : ∀ k, i ≠ k → Dict.get? s'.cloud k = Dict.get? s.cloud k)
    (hold : ∀ old k, Dict.get? s.ops j = some old → old.active = some k ∨ old.pending = some k → k = i)
    (hnew : ∀ new k, op = some new → new.active = some k → k = i)
    (hothers : ∀ k o, j ≠ k → Dict.get? s.ops k = some o → o.active ≠ some i)
    (hown : ∀ endpoint, Dict.get? s'.cloud i = some endpoint → endpoint.token.trigger = i)
    (hop : ∀ new, op = some new → OpInv s' new)
    (hcalm : (∀ new, op = some new → new.active ≠ some i) → Calm s' i) : Agree s' := by
  have hpending : ∀ k, i ≠ k → Pending s k → Pending s' k := by
    intro k hik
    exact pending_step hops fun old hj hp => absurd (hold old k hj (.inr hp)) (Ne.symm hik)
  refine ⟨?_, ?_, ?_, ?_⟩
  · intro k endpoint hk
    by_cases hik : i = k
    · subst hik
      exact hown endpoint hk
    · rw [hcloud k hik] at hk
      exact h.own k endpoint hk
  · intro k o hk
    rw [hops] at hk
    split at hk
    · exact hop o hk
    · rename_i hjk
      cases ho : o.active with
      | none => exact .of_inactive ho
      | some k' =>
        have hik : i ≠ k' := by
          intro heq
          rw [← heq] at ho
          exact hothers k o hjk hk ho
        exact (h.ops k o hk).frame ho (hrows k' hik) (hcloud k' hik) (hpending k' hik)
  · intro k k' o o' i' hk hk' ho ho'
    rw [hops] at hk hk'
    by_cases hik : i = i'
    · subst hik
      split at hk
      · rename_i hjk
        split at hk'
        · rename_i hjk'
          exact hjk.symm.trans hjk'
        · rename_i hjk'
          exact absurd ho' (hothers k' o' hjk' hk')
      · rename_i hjk
        exact absurd ho (hothers k o hjk hk)
    · split at hk
      · exact absurd (hnew o i' hk ho).symm hik
      · split at hk'
        · exact absurd (hnew o' i' hk' ho').symm hik
        · exact h.sole k k' o o' i' hk hk' ho ho'
  · intro k hk
    by_cases hik : i = k
    · subst hik
      refine hcalm fun new hop' => ?_
      refine hk j new ?_
      rw [hops, if_pos rfl, hop']
    · refine (h.calm k ?_).frame (hrows k hik) (hcloud k hik) fun _ => hpending k hik
      intro k' o hk' ho
      by_cases hjk : j = k'
      · subst hjk
        exact hik (hold o k hk' (.inl ho)).symm
      · refine hk k' o ?_ ho
        rw [hops, if_neg hjk]
        exact hk'

/-- An operation that has a trigger in its hands is the only one. -/
theorem Agree.others {s : St} {j i : Nat} {old : Op} (h : Agree s) (hj : Dict.get? s.ops j = some old)
    (hactive : old.active = some i) : ∀ k o, j ≠ k → Dict.get? s.ops k = some o → o.active ≠ some i :=
  fun k o hjk hk ho => hjk (h.sole j k old o i hj hk hactive ho)

/-- An update's source: whoever has the trigger in its hands, the update will read it again. -/
theorem Agree.save {s : St} {j i : Nat} {source : Option Source} {row : Row} (h : Agree s)
    (hj : Dict.get? s.ops j = some (.updating i source)) (hrow : Dict.get? s.rows i = some row) :
    Agree (setOp j (some (.updated i))
      { s with rows := Dict.set s.rows i { row with source := source.getD row.source } }) := by
  let t := setOp j (some (.updated i)) { s with rows := Dict.set s.rows i { row with source := source.getD row.source } }
  have hops : ∀ k, Dict.get? t.ops k = if j = k then some (.updated i) else Dict.get? s.ops k :=
    fun k => get_setOp j _ _ k
  have hself : Dict.get? t.rows i = some { row with source := source.getD row.source } := Dict.get?_set_self ..
  have hrows : ∀ k, i ≠ k → Dict.get? t.rows k = Dict.get? s.rows k := fun k hik => Dict.get?_set_other _ _ hik
  have hpending : Pending t i := ⟨j, .updated i, by rw [hops, if_pos rfl], rfl⟩
  have hkeep : ∀ k, Pending s k → Pending t k := by
    intro k
    refine pending_step hops ?_
    intro old hold hp
    rw [hj] at hold
    cases hold
    cases hp
  have hactive : ∀ k o k', Dict.get? t.ops k = some o → o.active = some k' → Dict.get? s.ops k = some o := by
    intro k o k' hk ho
    rw [hops] at hk
    split at hk
    · cases hk
      cases ho
    · exact hk
  -- the token is the row's as before, and its source is one the update will replace
  have hop : ∀ o, OpInv s o → o.active = some i → OpInv t o := by
    intro o ho hactive
    cases o <;> cases hactive
    · obtain ⟨row', hrow', htoken, hnone, -⟩ := ho
      rw [hrow] at hrow'
      cases hrow'
      exact ⟨_, hself, htoken, hnone, .inr hpending⟩
    · obtain ⟨row', source', hrow', htoken, hsome, -⟩ := ho
      rw [hrow] at hrow'
      cases hrow'
      exact ⟨_, source', hself, htoken, hsome, .inr hpending⟩
    · obtain ⟨row', endpoint, hrow', hsome, htoken, -⟩ := ho
      rw [hrow] at hrow'
      cases hrow'
      exact ⟨_, endpoint, hself, hsome, htoken, .inr hpending⟩
    · obtain ⟨row', source', hrow', hsome, -⟩ := ho
      exact ⟨_, source', hself, hsome, .inr hpending⟩
    · obtain ⟨row', endpoint, hrow', hsome, htoken, hsame⟩ := ho
      rw [hrow] at hrow'
      cases hrow'
      exact ⟨_, endpoint, hself, hsome, htoken, hsame⟩
    · obtain ⟨row', hrow', hnone⟩ := ho
      exact ⟨_, hself, hnone⟩
  refine ⟨h.own, ?_, ?_, ?_⟩
  · intro k o hk
    cases ho : o.active with
    | none => exact .of_inactive ho
    | some i' =>
      have hinv := h.ops k o (hactive k o i' hk ho)
      by_cases hii : i = i'
      · subst hii
        exact hop o hinv ho
      · exact hinv.frame ho (hrows i' hii) rfl (hkeep i')
  · intro k k' o o' i' hk hk' ho ho'
    exact h.sole k k' o o' i' (hactive k o i' hk ho) (hactive k' o' i' hk' ho') ho ho'
  · intro k hk
    have hcalm : Calm s k := by
      refine h.calm k ?_
      intro k' o hk' ho
      by_cases hjk : j = k'
      · subst hjk
        rw [hj] at hk'
        cases hk'
        cases ho
      · refine hk k' o ?_ ho
        rw [hops, if_neg hjk]
        exact hk'
    by_cases hik : i = k
    · subst hik
      unfold Calm at hcalm ⊢
      rw [hrow] at hcalm
      obtain ⟨endpoint, hsome, htoken, -⟩ := hcalm
      rw [hself]
      exact ⟨endpoint, hsome, htoken, .inr hpending⟩
    · exact hcalm.frame (hrows k hik) rfl fun _ => hkeep k

/-! ## Who holds what -/

/-- A trigger that comes is new, and one whose lock is forgotten has gone. -/
theorem Guard.change {s s' : St} {j : Nat} {op : Option Op} (h : Guard s)
    (hops : ∀ k, Dict.get? s'.ops k = if j = k then op else Dict.get? s.ops k) (hnext : s.nextId ≤ s'.nextId)
    (hrows : ∀ item ∈ s'.rows, item.1 < s'.nextId)
    (hpresent : ∀ i, i < s.nextId → (Dict.get? s'.rows i).isSome = true → (Dict.get? s.rows i).isSome = true)
    (hregistry : ∀ i l, (Dict.get? s'.rows i).isSome = true → Dict.get? s.registry i = some l →
      Dict.get? s'.registry i = some l)
    (hlocks : ∀ k l, j ≠ k → s.locks.Holds k l → s'.locks.Holds k l)
    (hids : ∀ new, op = some new → ∀ i ∈ new.ids, i < s'.nextId)
    (hheld : ∀ new i l, op = some new → new.held = some (i, l) → s'.locks.Holds j l)
    (hregistered : ∀ new i l, op = some new → new.asked = some (i, l) → (Dict.get? s'.rows i).isSome = true →
      Dict.get? s'.registry i = some l) : Guard s' := by
  refine ⟨hrows, ?_, ?_, ?_⟩
  · intro k o hk i hi
    rw [hops] at hk
    split at hk
    · exact hids o hk i hi
    · exact Nat.lt_of_lt_of_le (h.ids k o hk i hi) hnext
  · intro k o i l hk ho
    rw [hops] at hk
    split at hk
    · rename_i hjk
      rw [← hjk]
      exact hheld o i l hk ho
    · rename_i hjk
      exact hlocks k l hjk (h.held k o i l hk ho)
  · intro k o i l hk ho hi
    rw [hops] at hk
    split at hk
    · exact hregistered o i l hk ho hi
    · exact hregistry i l hi (h.registered k o i l hk ho (hpresent i (h.ids k o hk i (asked_ids ho)) hi))

/-- An operation that asks for no lock and forgets none. -/
theorem Guard.plain {s s' : St} {j : Nat} {op : Option Op} (h : Guard s)
    (hops : ∀ k, Dict.get? s'.ops k = if j = k then op else Dict.get? s.ops k) (hnext : s'.nextId = s.nextId)
    (hrows : ∀ item ∈ s'.rows, item.1 < s.nextId)
    (hpresent : ∀ i, (Dict.get? s'.rows i).isSome = true → (Dict.get? s.rows i).isSome = true)
    (hregistry : s'.registry = s.registry) (hlocks : ∀ k l, j ≠ k → s.locks.Holds k l → s'.locks.Holds k l)
    (hids : ∀ new, op = some new → ∀ i ∈ new.ids, i < s.nextId)
    (hasked : ∀ new i l, op = some new → new.asked = some (i, l) → ∃ old, Dict.get? s.ops j = some old ∧
      old.asked = some (i, l) ∧ (new.held = some (i, l) → s'.locks.Holds j l)) : Guard s' := by
  refine h.change hops (Nat.le_of_eq hnext.symm) ?_ (fun i _ => hpresent i) ?_ hlocks ?_ ?_ ?_
  · rw [hnext]
    exact hrows
  · intro i l _ hl
    rw [hregistry]
    exact hl
  · rw [hnext]
    exact hids
  · intro new i l hop hheld
    obtain ⟨old, -, -, hholds⟩ := hasked new i l hop (asked_of_held hheld)
    exact hholds hheld
  · intro new i l hop hnew hi
    obtain ⟨old, hj, hold, -⟩ := hasked new i l hop hnew
    rw [hregistry]
    exact h.registered j old i l hj hold (hpresent i hi)

/-- Two operations that hold a trigger's lock are one, while the trigger is there. -/
theorem Guard.alone {s : St} {j k i l l' : Nat} {op op' : Op} (h : Guard s) (hj : Dict.get? s.ops j = some op)
    (hk : Dict.get? s.ops k = some op') (hop : op.held = some (i, l)) (hop' : op'.held = some (i, l'))
    (hrow : (Dict.get? s.rows i).isSome = true) : j = k := by
  have hl := h.registered j op i l hj (asked_of_held hop) hrow
  have hl' := h.registered k op' i l' hk (asked_of_held hop') hrow
  rw [hl] at hl'
  cases hl'
  exact LockTable.holder_unique (h.held j op i l hj hop) (h.held k op' i l hk hop')

/-! ## A pass's snapshot -/

theorem mem_idsOf_set {groups : List (Source × List (Nat × Option Token))} {source : Source}
    {group : List (Nat × Option Token)} {i : Nat} (h : i ∈ idsOf (Dict.set groups source group)) :
    i ∈ idsOf groups ∨ i ∈ group.map Prod.fst := by
  obtain ⟨g, hg, hi⟩ := List.mem_flatMap.mp h
  rcases Dict.mem_set hg with hg | rfl
  · exact .inl (List.mem_flatMap.mpr ⟨g, hg, hi⟩)
  · exact .inr hi

theorem byIntegration_ids (rows : List (Nat × Row)) {i : Nat} (h : i ∈ idsOf (byIntegration rows)) :
    i ∈ rows.map Prod.fst := by
  have hfold : ∀ (rows : List (Nat × Row)) (groups : List (Source × List (Nat × Option Token))),
      i ∈ idsOf (rows.foldl (fun groups row => Dict.set groups row.2.source
        ((Dict.get? groups row.2.source).getD [] ++ [(row.1, row.2.cloudEndpointToken)])) groups) →
      i ∈ idsOf groups ∨ i ∈ rows.map Prod.fst := by
    intro rows
    induction rows with
    | nil => exact fun groups h => .inl h
    | cons row rows ih =>
      intro groups h
      rcases ih _ h with h | h
      · rcases mem_idsOf_set h with h | h
        · exact .inl h
        · rw [List.map_append, List.mem_append] at h
          rcases h with h | h
          · cases hget : Dict.get? groups row.2.source with
            | none =>
              rw [hget] at h
              cases h
            | some group =>
              rw [hget] at h
              exact .inl (List.mem_flatMap.mpr ⟨_, Dict.mem_of_get? hget, h⟩)
          · rw [List.map_cons, List.map_nil, List.mem_singleton] at h
            rw [h]
            exact .inr (List.mem_cons_self ..)
      · exact .inr (List.mem_cons_of_mem _ h)
  rcases hfold rows [] h with h | h
  · cases h
  · exact h

/-! ## Steps with nothing in hand -/

theorem Guard.id_lt {s : St} {i : Nat} (h : Guard s) (hrow : (Dict.get? s.rows i).isSome = true) : i < s.nextId := by
  obtain ⟨row, hrow⟩ := Option.isSome_iff_exists.mp hrow
  exact h.rows (i, row) (Dict.mem_of_get? hrow)

/-- An operation that neither holds nor asks for anything, before and after. -/
theorem idle_inv {s : St} {j : Nat} {op : Option Op} (h : Inv s)
    (hold : ∀ old, Dict.get? s.ops j = some old → old.active = none ∧ old.pending = none)
    (hnew : ∀ new, op = some new → new.active = none ∧ new.asked = none ∧ ∀ i ∈ new.ids, i < s.nextId) :
    Inv (setOp j op s) := by
  constructor
  · refine h.agree.quiet (fun k => get_setOp j op s k) rfl rfl (fun old hj => (hold old hj).1) (fun new hop => (hnew new hop).1) ?_
    intro old i hj hp
    rw [(hold old hj).2] at hp
    cases hp
  · refine h.guard.plain (fun k => get_setOp j op s k) rfl h.guard.rows (fun _ hi => hi) rfl (fun _ _ _ hl => hl)
      (fun new hop => (hnew new hop).2.2) ?_
    intro new i l hop hasked
    rw [(hnew new hop).2.1] at hasked
    cases hasked

theorem create_inv {s : St} {j : Nat} (source : Source) (h : Inv s) (hj : Dict.get? s.ops j = none) :
    Inv (setOp j (some (.creating s.nextId source))
      { s with rows := Dict.set s.rows s.nextId ⟨source, none⟩, nextId := s.nextId + 1 }) := by
  have hops : ∀ k, Dict.get? (setOp j (some (.creating s.nextId source))
      { s with rows := Dict.set s.rows s.nextId ⟨source, none⟩, nextId := s.nextId + 1 }).ops k =
      if j = k then some (.creating s.nextId source) else Dict.get? s.ops k := fun k => get_setOp j _ _ k
  have hnone : ∀ k op, Dict.get? s.ops k = some op → op.active ≠ some s.nextId := by
    intro k op hk hactive
    exact absurd (h.guard.ids k op hk _ (active_ids hactive)) (Nat.lt_irrefl _)
  have hrow : Dict.get? s.rows s.nextId = none := by
    cases hrow : Dict.get? s.rows s.nextId with
    | none => rfl
    | some row => exact absurd (h.guard.rows _ (Dict.mem_of_get? hrow)) (Nat.lt_irrefl _)
  have hcloud : Dict.get? s.cloud s.nextId = none := by
    have hcalm := h.agree.calm s.nextId hnone
    unfold Calm at hcalm
    rw [hrow] at hcalm
    exact hcalm
  constructor
  · refine h.agree.change hops (fun k hk => Dict.get?_set_other _ _ hk) (fun _ _ => rfl) ?_ ?_ (fun k o _ hk => hnone k o hk)
      (h.agree.own s.nextId) ?_ ?_
    · intro old k hold
      rw [hj] at hold
      cases hold
    · intro new k hnew hactive
      cases hnew
      exact (Option.some.inj hactive).symm
    · intro new hnew
      cases hnew
      exact ⟨⟨source, none⟩, Dict.get?_set_self .., rfl, hcloud, .inl rfl⟩
    · intro hactive
      exact absurd rfl (hactive _ rfl)
  · refine h.guard.change hops (Nat.le_succ _) ?_ ?_ (fun _ _ _ hl => hl) (fun _ _ _ hl => hl) ?_ ?_ ?_
    · intro item hitem
      show item.1 < s.nextId + 1
      rcases Dict.mem_set hitem with hitem | rfl
      · exact Nat.lt_succ_of_lt (h.guard.rows item hitem)
      · exact Nat.lt_succ_self _
    · intro i hi hsome
      have hsome : (Dict.get? (Dict.set s.rows s.nextId ⟨source, none⟩) i).isSome = true := hsome
      rwa [Dict.get?_set_other _ _ (Nat.ne_of_gt hi)] at hsome
    · intro new hnew i hi
      cases hnew
      rw [List.mem_singleton.mp hi]
      exact Nat.lt_succ_self _
    · intro new i l hnew hheld
      cases hnew
      cases hheld
    · intro new i l hnew hasked
      cases hnew
      cases hasked

theorem save_inv {s : St} {j i : Nat} {source : Option Source} {row : Row} (h : Inv s)
    (hj : Dict.get? s.ops j = some (.updating i source)) (hrow : Dict.get? s.rows i = some row) :
    Inv (setOp j (some (.updated i))
      { s with rows := Dict.set s.rows i { row with source := source.getD row.source } }) := by
  have hi : i < s.nextId := h.guard.rows (i, row) (Dict.mem_of_get? hrow)
  refine ⟨h.agree.save hj hrow, h.guard.plain (fun k => get_setOp j _ _ k) rfl ?_ ?_ rfl (fun _ _ _ hl => hl) ?_ ?_⟩
  · intro item hitem
    rcases Dict.mem_set hitem with hitem | rfl
    · exact h.guard.rows item hitem
    · exact hi
  · intro k hk
    have hk : (Dict.get? (Dict.set s.rows i { row with source := source.getD row.source }) k).isSome = true := hk
    rw [Dict.get?_set] at hk
    split at hk
    · rename_i hik
      rw [← hik, hrow]
      rfl
    · exact hk
  · intro new hnew k hk
    cases hnew
    rw [List.mem_singleton.mp hk]
    exact hi
  · intro new k l hnew hasked
    cases hnew
    cases hasked

/-- A lock asked for: the object there is, or a new one. -/
theorem askLock_inv {s : St} {j i : Nat} {job : Job} {old : Op} (h : Inv s) (hj : Dict.get? s.ops j = some old)
    (hold : old.active = none) (hids : ∀ k ∈ i :: job.ids, k < s.nextId)
    (hpending : ∀ k, old.pending = some k → job = .update ∧ k = i) : Inv (askLock j job i s) := by
  have hkeep : ∀ l old' k, Dict.get? s.ops j = some old' → old'.pending = some k →
      ∃ new, some (Op.waiting job i l) = some new ∧ new.pending = some k := by
    intro l old' k hj' hp
    rw [hj] at hj'
    cases hj'
    obtain ⟨rfl, rfl⟩ := hpending k hp
    exact ⟨_, rfl, rfl⟩
  have hinactive : ∀ old', Dict.get? s.ops j = some old' → old'.active = none := by
    intro old' hj'
    rw [hj] at hj'
    cases hj'
    exact hold
  have hnew : ∀ l new, some (Op.waiting job i l) = some new → new.active = none := by
    intro l new hnew
    cases hnew
    rfl
  unfold askLock
  split
  · rename_i l hl
    refine ⟨h.agree.quiet (fun k => get_setOp j _ s k) rfl rfl hinactive (hnew l) fun o k hj' hp _ => hkeep l o k hj' hp,
      h.guard.change (fun k => get_setOp j _ s k) (Nat.le_refl _) h.guard.rows (fun _ _ hk => hk) (fun _ _ _ hk => hk)
        (fun _ _ _ hk => hk) ?_ ?_ ?_⟩
    · intro new hop
      cases hop
      exact hids
    · intro new k l' hop hheld
      cases hop
      cases hheld
    · intro new k l' hop hasked _
      cases hop
      cases hasked
      exact hl
  · rename_i hnone
    refine ⟨h.agree.quiet (fun k => get_setOp j _ _ k) rfl rfl hinactive (hnew _) fun o k hj' hp _ => hkeep _ o k hj' hp,
      h.guard.change (fun k => get_setOp j _ _ k) (Nat.le_refl _) h.guard.rows (fun _ _ hk => hk) ?_ (fun _ _ _ hk => hk)
        ?_ ?_ ?_⟩
    · intro k l' _ hl'
      refine (Dict.get?_set_other s.registry s.nextLock ?_).trans hl'
      intro hik
      rw [← hik, hnone] at hl'
      cases hl'
    · intro new hop
      cases hop
      exact hids
    · intro new k l' hop hheld
      cases hop
      cases hheld
    · intro new k l' hop hasked _
      cases hop
      cases hasked
      exact Dict.get?_set_self ..

theorem acquire_inv {s : St} {j i l : Nat} {job : Job} (h : Inv s) (hj : Dict.get? s.ops j = some (.waiting job i l))
    (hgrant : s.locks.grants j l = true) :
    Inv (setOp j (some (.holding job i l)) { s with locks := s.locks.lock j l }) := by
  constructor
  · refine h.agree.quiet (fun k => get_setOp j _ _ k) rfl rfl ?_ ?_ ?_
    · intro old hold
      rw [hj] at hold
      cases hold
      rfl
    · intro new hnew
      cases hnew
      rfl
    · intro old k hold hp _
      rw [hj] at hold
      cases hold
      refine ⟨_, rfl, ?_⟩
      cases job <;> cases hp
      rfl
  · refine h.guard.plain (fun k => get_setOp j _ _ k) rfl h.guard.rows (fun _ hk => hk) rfl ?_ ?_ ?_
    · intro k l' _ hl'
      exact LockTable.lock_other hgrant hl'
    · intro new hnew k hk
      cases hnew
      exact h.guard.ids j (.waiting job i l) hj k hk
    · intro new k l' hnew hasked
      cases hnew
      cases hasked
      exact ⟨_, hj, rfl, fun _ => LockTable.lock_self ..⟩

/-! ## Under the lock -/

theorem next_spec {job : Job} {op : Op} (h : job.next = some op) :
    op.active = none ∧ op.asked = none ∧ ∀ i, i ∈ op.ids → i ∈ job.ids := by
  cases job <;> cases h
  exact ⟨rfl, rfl, fun _ hi => hi⟩

/-- The lock is let go with nothing in hand. -/
theorem leave_inv {s : St} {j i l : Nat} {job : Job} (h : Inv s) (hj : Dict.get? s.ops j = some (.holding job i l))
    (hrow : job = .update → Dict.get? s.rows i = none) : Inv (leave j job s) := by
  constructor
  · refine h.agree.quiet (fun k => get_setOp j _ _ k) rfl rfl ?_ (fun new hnew => (next_spec hnew).1) ?_
    · intro old hold
      rw [hj] at hold
      cases hold
      rfl
    · intro old k hold hp hk
      rw [hj] at hold
      cases hold
      cases job <;> cases hp
      rw [hrow rfl] at hk
      cases hk
  · refine h.guard.plain (fun k => get_setOp j _ _ k) rfl h.guard.rows (fun _ hk => hk) rfl ?_ ?_ ?_
    · intro k l' hjk hl'
      exact LockTable.releaseAll_other (Ne.symm hjk) hl'
    · intro new hnew k hk
      exact h.guard.ids j _ hj k (List.mem_cons_of_mem _ ((next_spec hnew).2.2 k hk))
    · intro new k l' hnew hasked
      rw [(next_spec hnew).2.1] at hasked
      cases hasked

theorem forget_inv {s : St} {i : Nat} (h : Inv s) (hrow : Dict.get? s.rows i = none) : Inv (forgetLock i s) := by
  refine ⟨⟨h.agree.own, h.agree.ops, h.agree.sole, h.agree.calm⟩, ⟨h.guard.rows, h.guard.ids, h.guard.held, ?_⟩⟩
  intro j op k l hj hasked hk
  refine (Dict.get?_pop_other s.registry ?_).trans (h.guard.registered j op k l hj hasked hk)
  intro hik
  have hk : (Dict.get? s.rows k).isSome = true := hk
  rw [← hik, hrow] at hk
  cases hk

/-- The row read again under the lock is in nobody else's hands. -/
theorem read_others {s : St} {j i l : Nat} {job : Job} (h : Inv s) (hc : Registered s (.read j))
    (hj : Dict.get? s.ops j = some (.holding job i l)) (hrow : (Dict.get? s.rows i).isSome = true) :
    ∀ k o, j ≠ k → Dict.get? s.ops k = some o → o.active ≠ some i := by
  intro k o hjk hk hactive
  rcases active_cases hactive with hcreates | ⟨l', hheld⟩
  · rw [hc job i l hj k o hk] at hcreates
    cases hcreates
  · exact hjk (h.guard.alone hj hk rfl hheld hrow)

/-- The operation takes the trigger in its hands. -/
theorem take_inv {s : St} {j i l : Nat} {job : Job} {new : Op} (h : Inv s) (hc : Registered s (.read j))
    (hj : Dict.get? s.ops j = some (.holding job i l)) (hrow : (Dict.get? s.rows i).isSome = true)
    (hactive : new.active = some i) (hheld : new.held = some (i, l)) (hids : ∀ k ∈ new.ids, k ∈ i :: job.ids)
    (hop : Calm s i → OpInv (setOp j (some new) s) new) : Inv (setOp j (some new) s) := by
  have hothers := read_others h hc hj hrow
  have hcalm : Calm s i := by
    refine h.agree.calm i ?_
    intro k o hk ho
    by_cases hjk : j = k
    · subst hjk
      rw [hj] at hk
      cases hk
      cases ho
    · exact hothers k o hjk hk ho
  have hasked := asked_of_held hheld
  constructor
  · refine h.agree.change (fun k => get_setOp j _ s k) (fun _ _ => rfl) (fun _ _ => rfl) ?_ ?_ hothers (h.agree.own i) ?_ ?_
    · intro old k hold hk
      rw [hj] at hold
      cases hold
      rcases hk with hk | hk
      · cases hk
      · cases job <;> cases hk
        rfl
    · intro o k ho hk
      cases ho
      rw [hactive] at hk
      exact (Option.some.inj hk).symm
    · intro o ho
      cases ho
      exact hop hcalm
    · intro hne
      exact absurd hactive (hne new rfl)
  · refine h.guard.plain (fun k => get_setOp j _ s k) rfl h.guard.rows (fun _ hk => hk) rfl (fun _ _ _ hl => hl) ?_ ?_
    · intro o ho k hk
      cases ho
      exact h.guard.ids j _ hj k (hids k hk)
    · intro o k l' ho hk
      cases ho
      rw [hasked] at hk
      cases hk
      exact ⟨_, hj, rfl, fun _ => h.guard.held j _ i l hj rfl⟩

theorem post_to_inv {s : St} {j i l : Nat} {job : Job} {row : Row} (h : Inv s) (hc : Registered s (.read j))
    (hj : Dict.get? s.ops j = some (.holding job i l)) (hrow : Dict.get? s.rows i = some row) :
    Inv (setOp j (some (.posting job i l row.source)) s) := by
  refine take_inv h hc hj (by rw [hrow]; rfl) rfl rfl (fun _ hk => hk) ?_
  intro hcalm
  unfold Calm at hcalm
  rw [hrow] at hcalm
  obtain ⟨endpoint, hcloud, htoken, -⟩ := hcalm
  exact ⟨row, endpoint, hrow, hcloud, htoken, .inl rfl⟩

theorem read_inv {s : St} {j i l : Nat} {job : Job} (h : Inv s) (hc : Registered s (.read j))
    (hj : Dict.get? s.ops j = some (.holding job i l)) : Inv (readAgain j job i l s) := by
  unfold readAgain
  split
  · rename_i row hrow
    exact post_to_inv h hc hj hrow
  · rename_i hrow
    exact leave_inv h hj fun _ => hrow
  · rename_i row hrow
    refine take_inv h hc hj (by rw [hrow]; rfl) rfl rfl (fun k hk => ?_) ?_
    · rw [List.mem_singleton.mp hk]
      exact List.mem_cons_self ..
    · intro hcalm
      unfold Calm at hcalm
      rw [hrow] at hcalm
      obtain ⟨endpoint, hcloud, htoken, -⟩ := hcalm
      exact ⟨row, endpoint, hrow, hcloud, htoken, rfl⟩
  · rename_i hrow
    exact forget_inv (leave_inv h hj nofun) hrow
  · split
    · exact leave_inv h hj nofun
    · split
      · exact leave_inv h hj nofun
      · rename_i row hrow _ _
        exact post_to_inv h hc hj hrow
  · exact leave_inv h hj nofun

/-! ## With a trigger in hand -/

/-- A step of an operation that has a trigger in its hands, and no update's to come. -/
theorem hand_inv {s s' : St} {j i : Nat} {old : Op} {op : Option Op} (h : Inv s)
    (hj : Dict.get? s.ops j = some old) (hactive : old.active = some i) (hpending : old.pending = none)
    (hops : ∀ k, Dict.get? s'.ops k = if j = k then op else Dict.get? s.ops k) (hnext : s'.nextId = s.nextId)
    (hrows : ∀ item ∈ s'.rows, item.1 < s.nextId) (hpresent : (Dict.get? s'.rows i).isSome = true → (Dict.get? s.rows i).isSome = true)
    (hrow : ∀ k, i ≠ k → Dict.get? s'.rows k = Dict.get? s.rows k)
    (hcloud : ∀ k, i ≠ k → Dict.get? s'.cloud k = Dict.get? s.cloud k) (hregistry : s'.registry = s.registry)
    (hlocks : ∀ k l, j ≠ k → s.locks.Holds k l → s'.locks.Holds k l)
    (hnew : ∀ new, op = some new → (∀ k, new.active = some k → k = i) ∧ (∀ k ∈ new.ids, k < s.nextId) ∧
      ∀ k l, new.asked = some (k, l) → old.held = some (k, l) ∧ s'.locks = s.locks)
    (hown : ∀ endpoint, Dict.get? s'.cloud i = some endpoint → endpoint.token.trigger = i)
    (hop : ∀ new, op = some new → OpInv s' new)
    (hcalm : (∀ new, op = some new → new.active ≠ some i) → Calm s' i) : Inv s' := by
  constructor
  · refine h.agree.change hops hrow hcloud ?_ (fun new k ho hk => (hnew new ho).1 k hk) (h.agree.others hj hactive) hown hop hcalm
    intro o k ho hk
    rw [hj] at ho
    cases ho
    rcases hk with hk | hk
    · rw [hactive] at hk
      exact (Option.some.inj hk).symm
    · rw [hpending] at hk
      cases hk
  · refine h.guard.plain hops hnext hrows ?_ hregistry hlocks (fun new ho => (hnew new ho).2.1) ?_
    · intro k hk
      by_cases hik : i = k
      · subst hik
        exact hpresent hk
      · rwa [hrow k hik] at hk
    · intro new k l ho hasked
      obtain ⟨hheld, hlocks⟩ := (hnew new ho).2.2 k l hasked
      refine ⟨old, hj, asked_of_held hheld, fun _ => ?_⟩
      rw [hlocks]
      exact h.guard.held j old k l hj hheld

/-- An operation in hand keeps the pending updates as they are. -/
theorem pending_hand {s s' : St} {j : Nat} {old : Op} {op : Option Op} {i : Nat}
    (hj : Dict.get? s.ops j = some old) (hpending : old.pending = none)
    (hops : ∀ k, Dict.get? s'.ops k = if j = k then op else Dict.get? s.ops k) (h : Pending s i) : Pending s' i := by
  refine pending_step hops ?_ h
  intro o ho hp
  rw [hj] at ho
  cases ho
  rw [hpending] at hp
  cases hp

theorem issue_trigger {s : St} (h : Inv s) (i : Nat) (fresh : Bool) : (issue i fresh s).trigger = i := by
  unfold issue
  split
  · rename_i endpoint hcloud
    cases fresh with
    | true => rfl
    | false => exact h.agree.own i endpoint hcloud
  · rfl

/-- The registration at the cloud. -/
theorem post_inv {s : St} {j i : Nat} {old new : Op} {source : Source} (fresh : Bool) (h : Inv s)
    (hj : Dict.get? s.ops j = some old) (hold : old.active = some i) (hpending : old.pending = none)
    (hnew : new.active = some i) (hids : new.ids = old.ids) (hasked : new.asked = old.held)
    (hop : ∀ s' : St, s'.rows = s.rows → Dict.get? s'.cloud i = some ⟨source, issue i fresh s⟩ →
      (Pending s i → Pending s' i) → OpInv s' new) : Inv (setOp j (some new) (post i source fresh s)) := by
  have hops : ∀ k, Dict.get? (setOp j (some new) (post i source fresh s)).ops k =
      if j = k then some new else Dict.get? s.ops k := fun k => get_setOp j _ _ k
  have hcloud : Dict.get? (post i source fresh s).cloud i = some ⟨source, issue i fresh s⟩ := Dict.get?_set_self ..
  refine hand_inv h hj hold hpending hops rfl h.guard.rows (fun hk => hk) (fun _ _ => rfl)
    (fun k hik => Dict.get?_set_other _ _ hik) rfl (fun _ _ _ hl => hl) ?_ ?_ ?_ ?_
  · intro o ho
    cases ho
    refine ⟨?_, ?_, ?_⟩
    · intro k hk
      rw [hnew] at hk
      exact (Option.some.inj hk).symm
    · rw [hids]
      exact h.guard.ids j old hj
    · intro k l hk
      rw [hasked] at hk
      exact ⟨hk, rfl⟩
  · intro endpoint hk
    have hk : Dict.get? (post i source fresh s).cloud i = some endpoint := hk
    rw [hcloud] at hk
    cases hk
    exact issue_trigger h i fresh
  · intro o ho
    cases ho
    exact hop _ rfl hcloud (pending_hand hj hpending hops)
  · intro hne
    exact absurd hnew (hne new rfl)

theorem storeToken_eq {s : St} {i : Nat} {row : Row} (token : Token) (hrow : Dict.get? s.rows i = some row) :
    storeToken i token s = { s with rows := Dict.set s.rows i { row with cloudEndpointToken := some token } } := by
  unfold storeToken
  rw [hrow]

/-- The commit of the token: the trigger and its endpoint agree again. -/
theorem commit_inv {s s' : St} {j i : Nat} {old : Op} {op : Option Op} {row : Row} {source : Source} {token : Token}
    (h : Inv s) (hj : Dict.get? s.ops j = some old) (hold : old.active = some i) (hpending : old.pending = none)
    (hrow : Dict.get? s.rows i = some row) (hcloud : Dict.get? s.cloud i = some ⟨source, token⟩)
    (hfits : Fits s i source row) (hops : ∀ k, Dict.get? s'.ops k = if j = k then op else Dict.get? s.ops k)
    (hrows' : s'.rows = Dict.set s.rows i { row with cloudEndpointToken := some token }) (hcloud' : s'.cloud = s.cloud)
    (hnext : s'.nextId = s.nextId) (hregistry : s'.registry = s.registry)
    (hlocks : ∀ k l, j ≠ k → s.locks.Holds k l → s'.locks.Holds k l)
    (hnew : ∀ new, op = some new → new.active = none ∧ new.asked = none ∧ ∀ k ∈ new.ids, k < s.nextId) : Inv s' := by
  have hself : Dict.get? s'.rows i = some { row with cloudEndpointToken := some token } := by
    rw [hrows']
    exact Dict.get?_set_self ..
  refine hand_inv h hj hold hpending hops hnext ?_ (fun _ => by rw [hrow]; rfl) ?_ (fun _ _ => by rw [hcloud']) hregistry
    hlocks ?_ ?_ ?_ ?_
  · intro item hitem
    rw [hrows'] at hitem
    rcases Dict.mem_set hitem with hitem | rfl
    · exact h.guard.rows item hitem
    · exact h.guard.rows (i, row) (Dict.mem_of_get? hrow)
  · intro k hik
    rw [hrows']
    exact Dict.get?_set_other _ _ hik
  · intro new ho
    obtain ⟨hactive, hasked, hids⟩ := hnew new ho
    refine ⟨?_, hids, ?_⟩
    · intro k hk
      rw [hactive] at hk
      cases hk
    · intro k l hk
      rw [hasked] at hk
      cases hk
  · rw [hcloud']
    exact h.agree.own i
  · intro new ho
    exact .of_inactive (hnew new ho).1
  · intro _
    unfold Calm
    rw [hself]
    exact ⟨_, hcloud'.symm ▸ hcloud, rfl, hfits.mono (pending_hand hj hpending hops)⟩

/-- A revocation removes the endpoint there is. -/
theorem revoke_eq {s : St} {i : Nat} {row : Row} {endpoint : Endpoint} (source : Source) (h : Inv s)
    (hcloud : Dict.get? s.cloud i = some endpoint) (htoken : row.cloudEndpointToken = some endpoint.token) :
    revoke i source row.cloudEndpointToken s = { s with cloud := Dict.pop s.cloud i } := by
  have hown := h.agree.own i endpoint hcloud
  unfold revoke
  rw [htoken]
  dsimp only
  rw [hown, hcloud]
  exact if_pos (decide_eq_true rfl)

theorem revoke_inv {s : St} {j i l : Nat} {source : Source} {token : Option Token} (h : Inv s)
    (hj : Dict.get? s.ops j = some (.revoking i l source token)) :
    Inv (setOp j (some (.revoked i l)) (revoke i source token s)) := by
  obtain ⟨row, endpoint, hrow, hcloud, htoken, rfl⟩ := h.agree.ops j _ hj
  rw [revoke_eq source h hcloud htoken]
  refine hand_inv h hj rfl rfl (fun k => get_setOp j _ _ k) rfl h.guard.rows (fun hk => hk) (fun _ _ => rfl)
    (fun k hik => Dict.get?_pop_other _ hik) rfl (fun _ _ _ hl => hl) ?_ ?_ ?_ ?_
  · intro new ho
    cases ho
    refine ⟨?_, fun k hk => h.guard.ids j (.revoking i l source row.cloudEndpointToken) hj k hk, ?_⟩
    · intro k hk
      exact (Option.some.inj hk).symm
    · intro k l' hk
      exact ⟨hk, rfl⟩
  · intro e hk
    have hk : Dict.get? (Dict.pop s.cloud i) i = some e := hk
    rw [Dict.get?_pop_self] at hk
    cases hk
  · intro new ho
    cases ho
    exact ⟨row, hrow, Dict.get?_pop_self ..⟩
  · intro hne
    exact absurd rfl (hne _ rfl)

theorem remove_inv {s : St} {j i l : Nat} (h : Inv s) (hj : Dict.get? s.ops j = some (.revoked i l)) :
    Inv (forgetLock i (leave j .delete { s with rows := Dict.pop s.rows i })) := by
  obtain ⟨row, hrow, hcloud⟩ := h.agree.ops j _ hj
  have hself : Dict.get? (Dict.pop s.rows i) i = none := Dict.get?_pop_self ..
  refine forget_inv ?_ hself
  refine hand_inv h hj rfl rfl (fun k => get_setOp j _ _ k) rfl ?_ (fun _ => by rw [hrow]; rfl) ?_ (fun _ _ => rfl) rfl ?_
    nofun ?_ nofun ?_
  · intro item hitem
    exact h.guard.rows item (Dict.mem_pop hitem)
  · intro k hik
    exact Dict.get?_pop_other _ hik
  · intro k l' hjk hl'
    exact LockTable.releaseAll_other (Ne.symm hjk) hl'
  · intro endpoint hk
    have hk : Dict.get? s.cloud i = some endpoint := hk
    rw [hcloud] at hk
    cases hk
  · intro _
    unfold Calm
    show (match Dict.get? (Dict.pop s.rows i) i with
      | some row => ∃ endpoint, Dict.get? s.cloud i = some endpoint ∧ row.cloudEndpointToken = some endpoint.token ∧
          Fits _ i endpoint.integration row
      | none => Dict.get? s.cloud i = none)
    rw [hself]
    exact hcloud

/-! ## Runs -/

theorem step_inv {s s' : St} {e : Event} (h : Inv s) (hc : Registered s e) (hst : step s e = some s') : Inv s' := by
  -- what an operation at rest has in hand, and whose update it is
  have hrest : ∀ {j old}, Dict.get? s.ops j = some old → old.active = none → old.pending = none →
      ∀ o, Dict.get? s.ops j = some o → o.active = none ∧ o.pending = none := by
    intro j old hj hactive hpending o ho
    rw [hj] at ho
    cases ho
    exact ⟨hactive, hpending⟩
  have hnone : ∀ {j}, Dict.get? s.ops j = none → ∀ o, Dict.get? s.ops j = some o → o.active = none ∧ o.pending = none := by
    intro j hj o ho
    rw [hj] at ho
    cases ho
  cases e with
  | create j source =>
    obtain ⟨hj, hst⟩ := Option.ite_none_right_eq_some.mp hst
    cases hst
    exact create_inv source h hj
  | update j i source =>
    obtain ⟨⟨hj, hrow⟩, hst⟩ := Option.ite_none_right_eq_some.mp hst
    cases hst
    refine idle_inv h (hnone hj) ?_
    intro new hnew
    cases hnew
    exact ⟨rfl, rfl, fun k hk => List.mem_singleton.mp hk ▸ h.guard.id_lt hrow⟩
  | delete j i =>
    obtain ⟨⟨hj, hrow⟩, hst⟩ := Option.ite_none_right_eq_some.mp hst
    cases hst
    refine idle_inv h (hnone hj) ?_
    intro new hnew
    cases hnew
    exact ⟨rfl, rfl, fun k hk => List.mem_singleton.mp hk ▸ h.guard.id_lt hrow⟩
  | begin j =>
    obtain ⟨hj, hst⟩ := Option.ite_none_right_eq_some.mp hst
    cases hst
    refine idle_inv h (hnone hj) ?_
    intro new hnew
    cases hnew
    refine ⟨rfl, rfl, ?_⟩
    intro k hk
    obtain ⟨item, hitem, rfl⟩ := List.mem_map.mp (byIntegration_ids s.rows hk)
    exact h.guard.rows item hitem
  | save j =>
    simp only [step] at hst
    split at hst
    · rename_i hj
      split at hst
      · rename_i hrow
        cases hst
        exact save_inv h hj hrow
      · cases hst
        exact idle_inv h (hrest hj rfl rfl) (by rintro _ ⟨⟩)
    · cases hst
  | conflict j =>
    simp only [step] at hst
    split at hst
    · rename_i hj
      cases hst
      exact idle_inv h (hrest hj rfl rfl) (by rintro _ ⟨⟩)
    · cases hst
  | list j =>
    simp only [step] at hst
    split at hst
    · rename_i integration group groups hj
      cases hst
      refine idle_inv h (hrest hj rfl rfl) ?_
      intro new hnew
      cases hnew
      exact ⟨rfl, rfl, fun k hk => h.guard.ids j (.grouped ((integration, group) :: groups)) hj k hk⟩
    · rename_i hj
      cases hst
      exact idle_inv h (hrest hj rfl rfl) (by rintro _ ⟨⟩)
    · cases hst
  | visit j =>
    simp only [step] at hst
    split at hst
    · rename_i integration live i token group groups hj
      have hids := h.guard.ids j _ hj
      split at hst
      · cases hst
        refine idle_inv h (hrest hj rfl rfl) ?_
        intro new hnew
        cases hnew
        exact ⟨rfl, rfl, fun k hk => hids k (List.mem_cons_of_mem _ hk)⟩
      · cases hst
        exact askLock_inv h hj rfl hids (by rintro _ ⟨⟩)
    · rename_i integration live groups hj
      cases hst
      refine idle_inv h (hrest hj rfl rfl) ?_
      intro new hnew
      cases hnew
      exact ⟨rfl, rfl, fun k hk => h.guard.ids j (.visiting ⟨integration, live, [], groups⟩) hj k hk⟩
    · cases hst
  | ask j =>
    simp only [step] at hst
    split at hst
    · rename_i i hj
      cases hst
      refine askLock_inv h hj rfl (h.guard.ids j (.updated i) hj) ?_
      intro k hk
      cases hk
      exact ⟨rfl, rfl⟩
    · rename_i i hj
      cases hst
      exact askLock_inv h hj rfl (h.guard.ids j (.deleting i) hj) (by rintro _ ⟨⟩)
    · cases hst
  | acquire j =>
    simp only [step] at hst
    split at hst
    · rename_i hj
      obtain ⟨hgrant, hst⟩ := Option.ite_none_right_eq_some.mp hst
      cases hst
      exact acquire_inv h hj hgrant
    · cases hst
  | read j =>
    simp only [step] at hst
    split at hst
    · rename_i hj
      cases hst
      exact read_inv h hc hj
    · cases hst
  | post j fresh =>
    simp only [step] at hst
    split at hst
    · rename_i i source hj
      cases hst
      obtain ⟨row, hrow, htoken, -, hfits⟩ := h.agree.ops j _ hj
      refine post_inv fresh h hj rfl rfl rfl rfl rfl ?_
      intro s' hrows hcloud hpending
      exact ⟨row, source, by rw [hrows, hrow], htoken, hcloud, hfits.mono hpending⟩
    · rename_i job i l source hj
      cases hst
      obtain ⟨row, endpoint, hrow, -, -, hfits⟩ := h.agree.ops j _ hj
      refine post_inv fresh h hj rfl rfl rfl rfl rfl ?_
      intro s' hrows hcloud hpending
      exact ⟨row, source, by rw [hrows, hrow], hcloud, hfits.mono hpending⟩
    · cases hst
  | commit j =>
    simp only [step] at hst
    split at hst
    · rename_i i token hj
      cases hst
      obtain ⟨row, source, hrow, -, hcloud, hfits⟩ := h.agree.ops j _ hj
      rw [storeToken_eq token hrow]
      exact commit_inv h hj rfl rfl hrow hcloud hfits (fun k => get_setOp j _ _ k) rfl rfl rfl rfl
        (fun _ _ _ hl => hl) (by rintro _ ⟨⟩)
    · rename_i job i l token hj
      cases hst
      obtain ⟨row, source, hrow, hcloud, hfits⟩ := h.agree.ops j _ hj
      rw [storeToken_eq token hrow]
      refine commit_inv h hj rfl rfl hrow hcloud hfits (fun k => get_setOp j _ _ k) rfl rfl rfl rfl ?_ ?_
      · intro k l' hjk hl'
        exact LockTable.releaseAll_other (Ne.symm hjk) hl'
      · intro new hnew
        obtain ⟨hactive, hasked, hids⟩ := next_spec hnew
        exact ⟨hactive, hasked, fun k hk => h.guard.ids j _ hj k (List.mem_cons_of_mem _ (hids k hk))⟩
    · cases hst
  | revoke j =>
    simp only [step] at hst
    split at hst
    · rename_i hj
      cases hst
      exact revoke_inv h hj
    · cases hst
  | remove j =>
    simp only [step] at hst
    split at hst
    · rename_i hj
      cases hst
      exact remove_inv h hj
    · cases hst

/-- When nobody works on them, triggers and endpoints correspond. -/
theorem Inv.matched {s : St} (h : Inv s) (hdone : s.ops = []) : Matched s := by
  have hcalm : ∀ i, Calm s i := by
    intro i
    refine h.agree.calm i ?_
    intro j op hj
    rw [hdone] at hj
    cases hj
  constructor
  · intro i endpoint hcloud
    have hi := hcalm i
    unfold Calm at hi
    split at hi
    · rename_i row hrow
      rw [hrow]
      rfl
    · rw [hcloud] at hi
      cases hi
  · intro i row hrow
    have hi := hcalm i
    unfold Calm at hi
    rw [hrow] at hi
    obtain ⟨⟨integration, token⟩, hcloud, htoken, hfits⟩ := hi
    refine ⟨token, htoken, hcloud.trans ?_⟩
    rcases hfits with rfl | ⟨j, op, hj, -⟩
    · rfl
    · rw [hdone] at hj
      cases hj

theorem endpoints_matched {s : St} (h : machine.ReachIf Registered s) (hdone : s.ops = []) : Matched s := by
  have hstart : ∀ s, machine.init s → Inv s := fun _ hs => start_inv hs
  have hinv : Inv s := Machine.ReachIf.inv hstart (fun _ _ _ hinv hc hst => step_inv hinv hc hst) h
  exact hinv.matched hdone

/-! ## A creation and a deletion -/

def empty : St := ⟨[], 0, [], 0, [], 0, LockTable.empty, []⟩

theorem empty_start : Start empty := ⟨⟨nofun, nofun⟩, nofun, nofun, rfl, rfl, rfl⟩

/-- A trigger is created, and deleted before its registration reaches the cloud. -/
def deletedAtOnce : List Event :=
  [.create 0 .jira, .delete 1 0, .ask 1, .acquire 1, .read 1, .revoke 1, .remove 1, .post 0 true, .commit 0]

theorem an_endpoint_left_behind : ∃ s, machine.exec empty deletedAtOnce = some s ∧ s.ops = [] ∧ s.rows = [] ∧
    s.cloud = [(0, ⟨.jira, ⟨0, 0⟩⟩)] ∧ ¬ Matched s := by
  refine ⟨_, rfl, rfl, rfl, rfl, ?_⟩
  intro h
  exact absurd (h.endpoint 0 _ rfl) (by decide)

/-- A trigger is created, and moved to the other source. -/
def createdAndMoved : List Event :=
  [.create 0 .jira, .update 1 0 (some .github), .save 1, .post 0 true, .commit 0, .ask 1, .acquire 1, .read 1, .post 1 false,
    .commit 1]

theorem moved : ∃ s, machine.exec empty createdAndMoved = some s ∧
    s.rows = [(0, ⟨.github, some ⟨0, 0⟩⟩)] ∧ Matched s := by
  refine ⟨_, rfl, rfl, endpoints_matched
    (@Machine.ReachIf.exec _ _ machine _ _ _ createdAndMoved (.init empty_start) ?_ rfl) rfl⟩
  intro p hp
  rcases List.mem_cons.mp hp with rfl | hp
  · trivial
  rcases List.mem_cons.mp hp with rfl | hp
  · trivial
  rcases List.mem_cons.mp hp with rfl | hp
  · trivial
  rcases List.mem_cons.mp hp with rfl | hp
  · trivial
  rcases List.mem_cons.mp hp with rfl | hp
  · trivial
  rcases List.mem_cons.mp hp with rfl | hp
  · trivial
  rcases List.mem_cons.mp hp with rfl | hp
  · trivial
  rcases List.mem_cons.mp hp with rfl | hp
  · intro job i l _ k op hk
    cases List.mem_singleton.mp (Dict.mem_of_get? hk)
    rfl
  rcases List.mem_cons.mp hp with rfl | hp
  · trivial
  rw [List.mem_singleton.mp hp]
  trivial

end Errand.Server.TriggerEndpoints

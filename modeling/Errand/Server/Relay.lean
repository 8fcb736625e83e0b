import Errand.Server.Webhooks

/-
  Errand.Server.Relay — webhooks that come through the cloud relay
  (errand/cloud_dispatch.py), and what the endpoint of Errand.Server.Webhooks does with the
  same delivery.

  A relayed message names its trigger; the text of the id is parsed by `uuid.UUID`, which is
  open. The two dispatch functions differ in the header they read and in whether they look at
  the trigger's source.

  Proved:
  - `relay_iff_direct`: a relayed delivery reaches the handler exactly if the same headers and
    body posted to the endpoint match its trigger, but for the deliveries of `Differs`: under a
    trigger without a secret, under one of another source, without a body, and those whose
    signature the two do not read alike.
  - `an_unsigned_delivery_is_relayed`: one of the first kind.
-/

namespace Errand.Server.Relay

open Errand.Lib
open Errand.Server.Webhooks

/-- What `dispatch_cloud_webhook` reads of a message. -/
structure Message where
  integration : String
  endpointType : String
  body : String
  headers : Headers
  triggerId : Option String
  deriving DecidableEq, Repr

/-- `body.encode("utf-8")`. -/
def encode (body : String) : Bytes := body.toUTF8.data.toList

/-- `headers.get(lower, headers.get(upper, ""))`. -/
def signatureOf (headers : Headers) (lower upper : String) : String :=
  (Dict.get? headers lower).getD ((Dict.get? headers upper).getD "")

/-- What a message is handed to. -/
inductive Call where
  | slack (endpointType : String) (body : Bytes)
  | webhook (integration : String) (trigger : Trigger) (body : Bytes) (headers : Headers)
  deriving DecidableEq, Repr

section Open

variable (decrypt : String → Option Json) (hmac : String → Bytes → List (Fin 16)) (uuid : String → Option Nat)

/-- The HMAC re-verification. Whatever is raised under a secret discards the message. -/
def reverify (trigger : Trigger) (body : Bytes) (signature : String) : Bool :=
  match trigger.secret with
  | none => true
  | some webhookSecret =>
    if signature.isEmpty then false
    else
      match secretOf decrypt webhookSecret with
      | some (.str secret) => verifyHmac hmac secret body signature = some true
      | _ => false

/-- The trigger whose handler is called. `source` is the source that is demanded, if one is,
    and the headers' names are the two spellings that are read. -/
def dispatchTriggerWebhook (source : Option String) (lower upper : String) (triggers : List Trigger) (body : Bytes)
    (headers : Headers) (triggerId : Option String) : Option Trigger := do
  let triggerId ← triggerId.filter (!·.isEmpty)
  let parsedId ← uuid triggerId
  let trigger ← triggers.find? (·.id = parsedId)
  if source.any (· ≠ trigger.source) then none
  else if !trigger.enabled then none
  else if reverify decrypt hmac trigger body (signatureOf headers lower upper) then some trigger
  else none

/-- `_dispatch_jira_webhook`. -/
def dispatchJiraWebhook : List Trigger → Bytes → Headers → Option String → Option Trigger :=
  dispatchTriggerWebhook decrypt hmac uuid none "x-hub-signature" "X-Hub-Signature"

/-- `_dispatch_github_webhook`. -/
def dispatchGithubWebhook : List Trigger → Bytes → Headers → Option String → Option Trigger :=
  dispatchTriggerWebhook decrypt hmac uuid (some "github") "x-hub-signature-256" "X-Hub-Signature-256"

def dispatchCloudWebhook (triggers : List Trigger) (message : Message) : Option Call :=
  let body := encode message.body
  if message.integration = "slack" then some (.slack message.endpointType body)
  else if message.integration = "jira" ∧ message.endpointType = "webhook" then
    (dispatchJiraWebhook decrypt hmac uuid triggers body message.headers message.triggerId).map fun trigger =>
      .webhook "jira" trigger body message.headers
  else if message.integration = "github" ∧ message.endpointType = "webhook" then
    (dispatchGithubWebhook decrypt hmac uuid triggers body message.headers message.triggerId).map fun trigger =>
      .webhook "github" trigger body message.headers
  else none

/-! ## The same delivery, posted -/

/-- The message's headers and body posted to `/webhooks/{integration}`, where the trigger is
    the only one. -/
def Message.posted (message : Message) (trigger : Trigger) (now : Int) : Request where
  source := message.integration
  headers := message.headers
  body := encode message.body
  now := now
  triggers := [trigger]

/-- A Jira or GitHub delivery for a trigger. -/
structure RelayedFor (triggers : List Trigger) (message : Message) (trigger : Trigger) : Prop where
  integration : message.integration = "jira" ∨ message.integration = "github"
  endpointType : message.endpointType = "webhook"
  triggerId : (message.triggerId.filter (!·.isEmpty)).bind uuid = some trigger.id
  trigger : triggers.find? (·.id = trigger.id) = some trigger

/-- The signature that the dispatch function reads. -/
def Message.signature (message : Message) : String :=
  if message.integration = "jira" then signatureOf message.headers "x-hub-signature" "X-Hub-Signature"
  else signatureOf message.headers "x-hub-signature-256" "X-Hub-Signature-256"

/-- A signature of the body under the trigger's own secret. -/
def Signed (trigger : Trigger) (body : Bytes) (signature : String) : Prop :=
  signature ≠ "" ∧ ∃ webhookSecret secret, trigger.secret = some webhookSecret ∧
    secretOf decrypt webhookSecret = some (.str secret) ∧ verifyHmac hmac secret body signature = some true

/-- The deliveries that the relay and the endpoint treat differently. -/
inductive Differs (message : Message) (trigger : Trigger) : Prop
  | unsigned (enabled : trigger.enabled = true) (secret : trigger.secret = none)
      (source : message.integration = "github" → trigger.source = "github")
  | foreign (enabled : trigger.enabled = true) (jira : message.integration = "jira") (source : trigger.source ≠ "jira")
      (signed : Signed decrypt hmac trigger (encode message.body) message.signature)
  | emptyBody (enabled : trigger.enabled = true) (source : trigger.source = message.integration)
      (body : encode message.body = []) (signed : Signed decrypt hmac trigger [] message.signature)
  | header (enabled : trigger.enabled = true) (source : trigger.source = message.integration)
      (body : encode message.body ≠ [])
      (signature : ¬ (Signed decrypt hmac trigger (encode message.body) message.signature ↔
        ∃ signature, (message.posted trigger 0).signature = some signature ∧
          Signed decrypt hmac trigger (encode message.body) signature))

end Open

section Open

variable {decrypt : String → Option Json} {hmac : String → Bytes → List (Fin 16)} {uuid : String → Option Nat}

theorem reverify_iff {trigger : Trigger} {body : Bytes} {signature : String} :
    reverify decrypt hmac trigger body signature = true ↔
      trigger.secret = none ∨ Signed decrypt hmac trigger body signature := by
  unfold reverify Signed
  cases hsecret : trigger.secret with
  | none => simp
  | some webhookSecret =>
    by_cases hsig : signature = ""
    · simp [hsig]
    · have hne : signature.isEmpty = false := by simpa using hsig
      cases hs : secretOf decrypt webhookSecret with
      | none => simp [hne, hs]
      | some value =>
        cases value <;> simp [hne, hsig, hs]

/-- The endpoint's loop over one trigger. -/
theorem matchLoop_one {trigger : Trigger} {body : Bytes} {signature : String} (hsig : signature ≠ "") :
    (matchLoop decrypt hmac body signature [trigger]).join = some trigger ↔
      Signed decrypt hmac trigger body signature := by
  unfold Signed
  cases hsecret : trigger.secret with
  | none => simp [matchLoop, hsecret]
  | some webhookSecret =>
    cases hs : secretOf decrypt webhookSecret with
    | none => simp [matchLoop, hsecret, hs]
    | some value =>
      cases value with
      | str secret =>
        cases hv : verifyHmac hmac secret body signature with
        | none => simp [matchLoop, hsecret, hs, hv]
        | some valid => cases valid <;> simp [matchLoop, hsecret, hs, hv, hsig]
      | _ => simp [matchLoop, hsecret, hs]

theorem signature_ne {r : Request} {signature : String} (h : r.signature = some signature) : signature ≠ "" := by
  have := (Option.filter_eq_some_iff.mp h).2
  simpa using this

/-- What the endpoint matches, where there is one trigger. -/
theorem matched_one {r : Request} {trigger : Trigger} (h : r.triggers = [trigger]) :
    matched decrypt hmac r = some trigger ↔
      trigger.enabled = true ∧ trigger.source = r.source ∧ r.body ≠ [] ∧
        ∃ signature, r.signature = some signature ∧ Signed decrypt hmac trigger r.body signature := by
  unfold matched findMatchingTrigger
  rw [h]
  cases hs : r.signature with
  | none => simp
  | some signature =>
    have hsig := signature_ne hs
    cases hb : r.body with
    | nil => simp
    | cons b body =>
      by_cases hrow : trigger.source = r.source ∧ trigger.enabled = true
      · have hkeep : ([trigger].filter fun t => t.source = r.source && t.enabled) = [trigger] := by simp [hrow]
        rw [hkeep]
        simp [matchLoop_one hsig, hrow]
      · have hdrop : ([trigger].filter fun t => t.source = r.source && t.enabled) = [] := by
          simp only [List.filter_cons, Bool.and_eq_true, decide_eq_true_eq, if_neg hrow, List.filter_nil]
        rw [hdrop]
        simp only [List.isEmpty_cons, Bool.false_eq_true, if_false, matchLoop, Option.join_some, reduceCtorEq, false_iff]
        intro hall
        exact hrow ⟨hall.2.1, hall.1⟩

/-- What the relay hands to the handler. -/
theorem dispatch_isSome_iff {triggers : List Trigger} {message : Message} {trigger : Trigger}
    (h : RelayedFor uuid triggers message trigger) :
    (dispatchCloudWebhook decrypt hmac uuid triggers message).isSome = true ↔
      (message.integration = "github" → trigger.source = "github") ∧ trigger.enabled = true ∧
        (trigger.secret = none ∨ Signed decrypt hmac trigger (encode message.body) message.signature) := by
  have hlookup : ∀ (source : Option String) (lower upper : String),
      (dispatchTriggerWebhook decrypt hmac uuid source lower upper triggers (encode message.body) message.headers
          message.triggerId).isSome = true ↔
        source.all (· = trigger.source) = true ∧ trigger.enabled = true ∧
          reverify decrypt hmac trigger (encode message.body) (signatureOf message.headers lower upper) = true := by
    intro source lower upper
    obtain ⟨triggerId, hid, huuid⟩ := Option.bind_eq_some_iff.mp h.triggerId
    simp only [dispatchTriggerWebhook, bind, Option.bind, hid, huuid, h.trigger]
    cases source with
    | none => cases henabled : trigger.enabled <;> simp
    | some source =>
      by_cases hsource : source = trigger.source
      · cases henabled : trigger.enabled <;> simp [hsource]
      · simp [hsource]
  rcases h.integration with hi | hi
  · have hcall : (dispatchCloudWebhook decrypt hmac uuid triggers message).isSome =
        (dispatchJiraWebhook decrypt hmac uuid triggers (encode message.body) message.headers message.triggerId).isSome := by
      unfold dispatchCloudWebhook
      rw [hi, h.endpointType, if_neg (by decide), if_pos ⟨rfl, rfl⟩, Option.isSome_map]
    have hsig : message.signature = signatureOf message.headers "x-hub-signature" "X-Hub-Signature" := if_pos hi
    rw [hcall, dispatchJiraWebhook, hlookup, reverify_iff, hsig, hi]
    exact and_congr_left fun _ => iff_of_true rfl fun hgithub => absurd hgithub (by decide)
  · have hcall : (dispatchCloudWebhook decrypt hmac uuid triggers message).isSome =
        (dispatchGithubWebhook decrypt hmac uuid triggers (encode message.body) message.headers message.triggerId).isSome := by
      unfold dispatchCloudWebhook
      rw [hi, h.endpointType, if_neg (by decide), if_neg (by decide), if_pos ⟨rfl, rfl⟩, Option.isSome_map]
    have hsig : message.signature = signatureOf message.headers "x-hub-signature-256" "X-Hub-Signature-256" :=
      if_neg (by rw [hi]; decide)
    rw [hcall, dispatchGithubWebhook, hlookup, reverify_iff, hsig, hi]
    refine and_congr_left fun _ => ?_
    simp [eq_comm]

/-- A relayed delivery reaches the handler exactly if the endpoint would match it, but for the
    deliveries of `Differs`. -/
theorem relay_iff_direct {triggers : List Trigger} {message : Message} {trigger : Trigger}
    (h : RelayedFor uuid triggers message trigger) (now : Int) :
    ((dispatchCloudWebhook decrypt hmac uuid triggers message).isSome = true ↔
        matched decrypt hmac (message.posted trigger now) = some trigger) ↔
      ¬ Differs decrypt hmac message trigger := by
  have hposted : matched decrypt hmac (message.posted trigger now) = some trigger ↔
      trigger.enabled = true ∧ trigger.source = message.integration ∧ encode message.body ≠ [] ∧
        ∃ signature, (message.posted trigger 0).signature = some signature ∧
          Signed decrypt hmac trigger (encode message.body) signature := matched_one rfl
  have hnosecret : ∀ signature, trigger.secret = none → ¬ Signed decrypt hmac trigger (encode message.body) signature := by
    intro signature hnone hsigned
    obtain ⟨-, _, _, hsome, -⟩ := hsigned
    rw [hnone] at hsome
    cases hsome
  rw [dispatch_isSome_iff h, hposted]
  constructor
  · intro hsame hdiffers
    cases hdiffers with
    | unsigned henabled hsecret hsource =>
      obtain ⟨-, -, -, _, -, hsigned⟩ := hsame.mp ⟨hsource, henabled, .inl hsecret⟩
      exact hnosecret _ hsecret hsigned
    | foreign henabled hjira hsource hsigned =>
      have hgithub : message.integration = "github" → trigger.source = "github" := by
        intro hi
        rw [hjira] at hi
        exact absurd hi (by decide)
      exact hsource ((hsame.mp ⟨hgithub, henabled, .inr hsigned⟩).2.1.trans hjira)
    | emptyBody henabled hsource hbody hsigned =>
      rw [← hbody] at hsigned
      exact (hsame.mp ⟨fun hi => hsource.trans hi, henabled, .inr hsigned⟩).2.2.1 hbody
    | header henabled hsource hbody hsignature =>
      refine hsignature ⟨fun hsigned => ?_, fun hposted => ?_⟩
      · exact (hsame.mp ⟨fun hi => hsource.trans hi, henabled, .inr hsigned⟩).2.2.2
      · rcases (hsame.mpr ⟨henabled, hsource, hbody, hposted⟩).2.2 with hnone | hsigned
        · obtain ⟨_, -, hsigned⟩ := hposted
          exact absurd hsigned (hnosecret _ hnone)
        · exact hsigned
  · intro hno
    constructor
    · intro hrelay
      rcases hrelay with ⟨hgithub, henabled, hnone | hsigned⟩
      · exact absurd (.unsigned henabled hnone hgithub) hno
      · have hsource : trigger.source = message.integration := by
          rcases h.integration with hi | hi
          · rw [hi]
            by_contra hne
            exact hno (.foreign henabled hi hne hsigned)
          · exact (hgithub hi).trans hi.symm
        have hbody : encode message.body ≠ [] := by
          intro hbody
          exact hno (.emptyBody henabled hsource hbody (hbody ▸ hsigned))
        have hsame := Classical.not_not.mp fun hne => hno (.header henabled hsource hbody hne)
        exact ⟨henabled, hsource, hbody, hsame.mp hsigned⟩
    · intro hdirect
      rcases hdirect with ⟨henabled, hsource, hbody, hposted⟩
      have hsame := Classical.not_not.mp fun hne => hno (.header henabled hsource hbody hne)
      exact ⟨fun hi => hsource.trans hi, henabled, .inr (hsame.mpr hposted)⟩

end Open

/-! ## An unsigned delivery, and a signed one -/

def parseId (text : String) : Option Nat :=
  if text = "0f8fad5b-d9cb-469f-a165-70867728950e" then some 20684434521572431564404614332563363086 else none

def unsignedTrigger : Trigger := ⟨20684434521572431564404614332563363086, "jira", true, none⟩

def unsignedDelivery : Message :=
  ⟨"jira", "webhook", "{}", [], some "0f8fad5b-d9cb-469f-a165-70867728950e"⟩

/-- Whoever names a trigger without a secret is heard, with no signature at all. -/
theorem an_unsigned_delivery_is_relayed :
    RelayedFor parseId [unsignedTrigger] unsignedDelivery unsignedTrigger ∧
      dispatchCloudWebhook storedSecret (fun _ _ => digest) parseId [unsignedTrigger] unsignedDelivery =
        some (.webhook "jira" unsignedTrigger (encode "{}") []) ∧
      matched storedSecret (fun _ _ => digest) (unsignedDelivery.posted unsignedTrigger 0) = none := by
  refine ⟨⟨.inl rfl, rfl, by decide, by decide⟩, by decide, by decide⟩

def signedTrigger : Trigger := ⟨20684434521572431564404614332563363086, "github", true, some "gAAAAAB"⟩

def signedDelivery : Message where
  integration := "github"
  endpointType := "webhook"
  body := "{}"
  headers := [("x-hub-signature-256", "sha256=" ++ hexdigest digest)]
  triggerId := some "0f8fad5b-d9cb-469f-a165-70867728950e"

theorem signed_relayed_iff_matched :
    (dispatchCloudWebhook storedSecret (fun _ _ => digest) parseId [signedTrigger] signedDelivery).isSome = true ↔
      matched storedSecret (fun _ _ => digest) (signedDelivery.posted signedTrigger 5) = some signedTrigger := by
  have hsigned : Signed storedSecret (fun _ _ => digest) signedTrigger (encode "{}") ("sha256=" ++ hexdigest digest) :=
    ⟨by decide, "gAAAAAB", "s3cret", by decide, rfl, by decide⟩
  refine (relay_iff_direct ⟨.inr rfl, rfl, by decide, by decide⟩ 5).mpr fun hdiffers => ?_
  cases hdiffers with
  | unsigned _ hsecret _ => exact absurd hsecret (by decide)
  | foreign _ hjira _ _ => exact absurd hjira (by decide)
  | emptyBody _ _ hbody _ => exact absurd hbody (by decide)
  | header _ _ _ hsignature => exact hsignature (iff_of_true hsigned ⟨_, by decide, hsigned⟩)

end Errand.Server.Relay

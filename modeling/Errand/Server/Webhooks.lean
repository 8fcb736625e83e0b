import Errand.Lib.Dict
import Errand.Lib.Json
import Errand.Lib.Machine
import Errand.Lib.PyStr
import Errand.Server.Auth

/-
  Errand.Server.Webhooks — `POST /webhooks/{source}` (errand/webhook_receiver.py): which
  trigger a request matches, and the cache of event ids it is checked against first.

  A request brings the triggers as the lookup finds them and the time of
  `time.monotonic()` at the check, in microseconds; the check is one step, so requests come
  in its order. The cache outlives them, one for all sources. Decryption is open, and so is
  HMAC-SHA256, known by the sixteens of its digest.

  `St` has two caches: the one the requests leave, and the one they leave without those that
  match no trigger (`alone_run`).

  Proved:
  - `unaffected_iff`: every authentic request is answered and dispatched as if the unmatched
    ones had never been sent, and `duplicate` is the answer only to the event id of a
    dispatched one, all along exactly the runs in which no unmatched request brings an
    event id that is not in the cache.
  - `a_forged_delivery_suppresses`: one that does.
-/

namespace Errand.Server.Webhooks

open Errand.Lib
open Errand.Server.Auth (HttpError)

abbrev Bytes := List UInt8

/-- What a webhook is matched against. -/
structure Trigger where
  id : Nat
  source : String
  enabled : Bool
  webhookSecret : Option String
  deriving DecidableEq, Repr

/-! ## Headers -/

abbrev Headers := List (String × String)

/-- `request.headers.get(name)`. -/
def Headers.get (headers : Headers) (name : String) : Option String :=
  (headers.find? fun h => PyStr.lower h.1.toList = PyStr.lower name.toList).map Prod.snd

/-- `SOURCE_HEADERS`. -/
structure HeadersConfig where
  signature : String
  eventId : Option String
  deriving DecidableEq, Repr

def sourceHeaders : String → HeadersConfig
  | "jira" => ⟨"X-Hub-Signature", some "X-Atlassian-Webhook-Identifier"⟩
  | "github" => ⟨"X-Hub-Signature-256", some "X-GitHub-Delivery"⟩
  | _ => ⟨"X-Hub-Signature", none⟩

/-! ## Signatures -/

def removePrefix (start s : String) : String :=
  if start.toList.isPrefixOf s.toList then String.ofList (s.toList.drop start.length) else s

def isAscii (s : String) : Bool := s.toList.all fun c => c.toNat < 128

/-- `hmac.compare_digest` on texts; it raises where one is not ASCII. -/
def compareDigest (a b : String) : Option Bool := if isAscii a && isAscii b then some (a = b) else none

def hexDigit (d : Fin 16) : Char := if d.val < 10 then Char.ofNat (48 + d.val) else Char.ofNat (87 + d.val)

def hexdigest (digest : List (Fin 16)) : String := String.ofList (digest.map hexDigit)

section Open

variable (decrypt : String → Option Json) (hmac : String → Bytes → List (Fin 16))

/-- `_verify_hmac`. -/
def verifyHmac (secret : String) (body : Bytes) (signature : String) : Option Bool :=
  compareDigest (hexdigest (hmac secret body)) (removePrefix "sha256=" signature)

/-- `decrypt(webhook_secret).get("secret", "")`. -/
def secretOf (webhookSecret : String) : Option Json :=
  match decrypt webhookSecret with
  | some (.obj credData) => some ((Json.lookup "secret" credData).getD (.str ""))
  | _ => none

/-- A secret that is there. -/
def Trigger.secret (t : Trigger) : Option String := t.webhookSecret.filter (!·.isEmpty)

/-- The loop of `find_matching_trigger` over the rows it has selected; none is an exception. -/
def matchLoop (body : Bytes) (signature : String) : List Trigger → Option (Option Trigger)
  | [] => some none
  | t :: triggers =>
    match t.secret with
    | none => matchLoop body signature triggers
    | some webhookSecret =>
      match secretOf decrypt webhookSecret with
      | none => matchLoop body signature triggers
      | some (.str secret) =>
        match verifyHmac hmac secret body signature with
        | none => none
        | some true => some (some t)
        | some false => matchLoop body signature triggers
      | some _ => none

def findMatchingTrigger (triggers : List Trigger) (source : String) (body : Bytes) (signature : String) :
    Option (Option Trigger) :=
  matchLoop decrypt hmac body signature (triggers.filter fun t => t.source = source && t.enabled)

/-! ## The cache of event ids -/

abbrev Cache := List (String × Int)

/-- `DEDUP_TTL`. -/
def dedupTtl : Int := 300000000

def cleanupDedupCache (now : Int) (cache : Cache) : Cache := cache.filter fun entry => !decide (now - entry.2 > dedupTtl)

def isDuplicate (now : Int) (cache : Cache) (eventId : String) : Bool × Cache :=
  let cache := cleanupDedupCache now cache
  if (Dict.get? cache eventId).isSome then (true, cache) else (false, Dict.set cache eventId now)

/-! ## `receive_webhook` -/

structure Request where
  source : String
  headers : Headers
  body : Bytes
  now : Int
  triggers : List Trigger
  deriving DecidableEq, Repr

def Request.signature (r : Request) : Option String :=
  (r.headers.get (sourceHeaders r.source).signature).filter (!·.isEmpty)

def Request.eventId (r : Request) : Option String :=
  ((sourceHeaders r.source).eventId.bind r.headers.get).filter (!·.isEmpty)

inductive Response where
  | status (status : String)
  | httpError (e : HttpError)
  | raised
  deriving DecidableEq, Repr

/-- A matched request's answer, and what its handler is called with. -/
abbrev Answer := Response × Option (Trigger × Bytes × Headers)

def route (r : Request) (signature : String) : Answer :=
  match findMatchingTrigger decrypt hmac r.triggers r.source r.body signature with
  | none => (.raised, none)
  | some none => (.httpError ⟨401, "No matching trigger"⟩, none)
  | some (some t) => (.status "accepted", some (t, r.body, r.headers))

def receiveWebhook (cache : Cache) (r : Request) : Cache × Answer :=
  match r.signature with
  | none => (cache, .httpError ⟨401, "No matching trigger"⟩, none)
  | some signature =>
    if r.body.isEmpty then (cache, .httpError ⟨400, "Empty request body"⟩, none)
    else
      match r.eventId with
      | none => (cache, route decrypt hmac r signature)
      | some eventId =>
        match isDuplicate r.now cache eventId with
        | (true, cache) => (cache, .status "duplicate", none)
        | (false, cache) => (cache, route decrypt hmac r signature)

/-- The answer that a request gets where no event id is known. -/
def firstAnswer (r : Request) : Answer := (receiveWebhook decrypt hmac [] r).2

/-- The trigger whose signature the request carries. -/
def matched (r : Request) : Option Trigger :=
  match r.signature with
  | none => none
  | some signature =>
    if r.body.isEmpty then none
    else (findMatchingTrigger decrypt hmac r.triggers r.source r.body signature).join

/-- The event id a request has checked. -/
def Request.checked (r : Request) : Option String := if r.signature.isSome && !r.body.isEmpty then r.eventId else none

/-! ## Runs -/

structure St where
  now : Int
  cache : Cache
  /-- The cache without the requests that match no trigger. -/
  alone : Cache
  /-- The event ids of the requests that were dispatched. -/
  dispatched : List String

def start : St := ⟨0, [], [], []⟩

def machine : Machine St Request where
  init s := s = start
  step s r :=
    if s.now ≤ r.now then
      some
        { now := r.now
          cache := (receiveWebhook decrypt hmac s.cache r).1
          alone := if (matched decrypt hmac r).isSome then (receiveWebhook decrypt hmac s.alone r).1 else s.alone
          dispatched :=
            if (receiveWebhook decrypt hmac s.cache r).2.2.isSome then r.eventId.toList ++ s.dispatched
            else s.dispatched }
    else none

/-- Every later authentic request is answered as if the unmatched ones had never been sent,
    and `duplicate` only to the event id of a dispatched one. -/
structure Unaffected (s : St) : Prop where
  authentic : ∀ r : Request, s.now ≤ r.now → (matched decrypt hmac r).isSome = true →
    (receiveWebhook decrypt hmac s.cache r).2 = (receiveWebhook decrypt hmac s.alone r).2
  duplicate : ∀ r : Request, s.now ≤ r.now → (receiveWebhook decrypt hmac s.cache r).2.1 = .status "duplicate" →
    ∃ eventId ∈ s.dispatched, r.eventId = some eventId

/-- The event id is in the cache, and still is at the time. -/
def Live (cache : Cache) (eventId : String) (now : Int) : Prop :=
  ∃ entry ∈ cache, entry.1 = eventId ∧ now - entry.2 ≤ dedupTtl

/-- A request that matches no trigger brings no event id that is not in the cache. -/
def Harmless (s : St) (r : Request) : Prop :=
  (matched decrypt hmac r).isSome = true ∨ ∀ eventId, r.checked = some eventId → Live s.cache eventId r.now

end Open

/-! ## What is in a cache -/

theorem isDuplicate_iff {now : Int} {cache : Cache} {eventId : String} :
    (isDuplicate now cache eventId).1 = true ↔ Live cache eventId now := by
  have hlive : Live cache eventId now ↔ eventId ∈ Dict.keys (cleanupDedupCache now cache) := by
    simp only [Live, Dict.keys, cleanupDedupCache, List.mem_map, List.mem_filter, Bool.not_eq_true',
      decide_eq_false_iff_not, Int.not_lt, gt_iff_lt]
    constructor
    · intro h
      rcases h with ⟨entry, hentry, hid, hfresh⟩
      exact ⟨entry, ⟨hentry, hfresh⟩, hid⟩
    · intro h
      rcases h with ⟨entry, ⟨hentry, hfresh⟩, hid⟩
      exact ⟨entry, hentry, hid, hfresh⟩
  rw [hlive, Dict.mem_keys_iff]
  unfold isDuplicate
  dsimp only
  split
  · rename_i h
    simp [h]
  · rename_i h
    simp [h]

theorem live_cleanup {now t : Int} {cache : Cache} {eventId : String} (h : now ≤ t) :
    Live (cleanupDedupCache now cache) eventId t ↔ Live cache eventId t := by
  unfold Live cleanupDedupCache
  constructor
  · intro hlive
    rcases hlive with ⟨entry, hentry, hid, hfresh⟩
    exact ⟨entry, (List.mem_filter.mp hentry).1, hid, hfresh⟩
  · intro hlive
    rcases hlive with ⟨entry, hentry, hid, hfresh⟩
    refine ⟨entry, List.mem_filter.mpr ⟨hentry, ?_⟩, hid, hfresh⟩
    simp only [Bool.not_eq_true', decide_eq_false_iff_not, gt_iff_lt]
    omega

/-- What a check leaves in the cache. -/
theorem live_isDuplicate {now t : Int} {cache : Cache} {eventId x : String} (h : now ≤ t) :
    Live (isDuplicate now cache eventId).2 x t ↔
      Live cache x t ∨ (¬ Live cache eventId now ∧ x = eventId ∧ t - now ≤ dedupTtl) := by
  by_cases hdup : (isDuplicate now cache eventId).1 = true
  · have hlive := isDuplicate_iff.mp hdup
    have hcache : (isDuplicate now cache eventId).2 = cleanupDedupCache now cache := by
      unfold isDuplicate at hdup ⊢
      dsimp only at hdup ⊢
      split at hdup
      · rename_i hsome
        rw [if_pos hsome]
      · cases hdup
    rw [hcache, live_cleanup h]
    simp [hlive]
  · have hlive : ¬ Live cache eventId now := fun hl => hdup (isDuplicate_iff.mpr hl)
    have hcache : (isDuplicate now cache eventId).2 = cleanupDedupCache now cache ++ [(eventId, now)] := by
      unfold isDuplicate at hdup ⊢
      dsimp only at hdup ⊢
      split at hdup
      · exact absurd rfl hdup
      · rename_i hnone
        rw [if_neg hnone]
        exact Dict.set_absent (Option.not_isSome_iff_eq_none.mp hnone) now
    have hclean : Live (cleanupDedupCache now cache) x t ↔ Live cache x t := live_cleanup h
    rw [hcache, ← hclean]
    simp only [Live, List.mem_append, List.mem_singleton]
    constructor
    · intro hl
      rcases hl with ⟨entry, hentry | rfl, hid, hfresh⟩
      · exact .inl ⟨entry, hentry, hid, hfresh⟩
      · exact .inr ⟨hlive, hid.symm, hfresh⟩
    · intro hl
      rcases hl with ⟨entry, hentry, hid, hfresh⟩ | ⟨-, rfl, hfresh⟩
      · exact ⟨entry, .inl hentry, hid, hfresh⟩
      · exact ⟨_, .inr rfl, rfl, hfresh⟩

/-! ## What a request is answered -/

section Open

variable {decrypt : String → Option Json} {hmac : String → Bytes → List (Fin 16)}

/-- Without a check, the cache is neither read nor written. -/
theorem receive_unchecked {r : Request} (h : r.checked = none) (cache : Cache) :
    receiveWebhook decrypt hmac cache r = (cache, firstAnswer decrypt hmac r) := by
  unfold Request.checked at h
  unfold firstAnswer receiveWebhook
  cases hs : r.signature with
  | none => rfl
  | some signature =>
    cases hb : r.body.isEmpty with
    | true => rfl
    | false =>
      rw [hs, hb] at h
      have hid : r.eventId = none := h
      simp [hid]

theorem receive_checked {r : Request} {eventId : String} (h : r.checked = some eventId) (cache : Cache) :
    receiveWebhook decrypt hmac cache r =
      ((isDuplicate r.now cache eventId).2,
        if (isDuplicate r.now cache eventId).1 then (.status "duplicate", none)
        else firstAnswer decrypt hmac r) := by
  unfold Request.checked at h
  cases hs : r.signature with
  | none =>
    rw [hs] at h
    cases h
  | some signature =>
    cases hb : r.body.isEmpty with
    | true =>
      rw [hs, hb] at h
      cases h
    | false =>
      rw [hs, hb] at h
      have hid : r.eventId = some eventId := h
      unfold firstAnswer receiveWebhook
      simp only [hs, hb, hid]
      cases hdup : isDuplicate r.now cache eventId with
      | mk dup cache' => cases dup <;> simp [isDuplicate, cleanupDedupCache, Dict.get?]

theorem checked_eventId {r : Request} {eventId : String} (h : r.checked = some eventId) :
    r.eventId = some eventId ∧ eventId ≠ "" := by
  unfold Request.checked at h
  split at h
  · refine ⟨h, ?_⟩
    have hid := h
    unfold Request.eventId at hid
    have := (Option.filter_eq_some_iff.mp hid).2
    intro he
    subst he
    cases this
  · cases h

variable (decrypt hmac) in
/-- An answer to a new event id: `duplicate` is none, and what is dispatched has matched. -/
theorem receive_first (r : Request) :
    (firstAnswer decrypt hmac r).1 ≠ .status "duplicate" ∧
      ((firstAnswer decrypt hmac r).2.isSome = (matched decrypt hmac r).isSome) := by
  have hroute : ∀ signature, (route decrypt hmac r signature).1 ≠ .status "duplicate" ∧
      (route decrypt hmac r signature).2.isSome =
        (findMatchingTrigger decrypt hmac r.triggers r.source r.body signature).join.isSome := by
    intro signature
    unfold route
    cases findMatchingTrigger decrypt hmac r.triggers r.source r.body signature with
    | none => exact ⟨nofun, rfl⟩
    | some found =>
      cases found with
      | none => exact ⟨nofun, rfl⟩
      | some t => exact ⟨by simp, rfl⟩
  unfold firstAnswer receiveWebhook matched
  cases r.signature with
  | none => exact ⟨nofun, rfl⟩
  | some signature =>
    cases hb : r.body.isEmpty with
    | true => exact ⟨nofun, rfl⟩
    | false =>
      cases r.eventId with
      | none => exact hroute signature
      | some eventId => exact hroute signature

/-! ## Two caches -/

/-- The two caches hold the same event ids from now on. -/
def Agree (s : St) : Prop := ∀ x t, s.now ≤ t → (Live s.cache x t ↔ Live s.alone x t)

def Known (s : St) : Prop := ∀ x t, s.now ≤ t → Live s.cache x t → x ∈ s.dispatched

/-- No event id in a cache is empty. -/
def Named (s : St) : Prop := (∀ entry ∈ s.cache, entry.1 ≠ "") ∧ ∀ entry ∈ s.alone, entry.1 ≠ ""

theorem receive_named {cache : Cache} (h : ∀ entry ∈ cache, entry.1 ≠ "") (r : Request) :
    ∀ entry ∈ (receiveWebhook decrypt hmac cache r).1, entry.1 ≠ "" := by
  cases hc : r.checked with
  | none =>
    rw [receive_unchecked hc]
    exact h
  | some eventId =>
    rw [receive_checked hc]
    intro entry hentry
    unfold isDuplicate at hentry
    dsimp only at hentry
    split at hentry
    · exact h entry (List.mem_filter.mp hentry).1
    · rcases Dict.mem_set hentry with hentry | rfl
      · exact h entry (List.mem_filter.mp hentry).1
      · exact (checked_eventId hc).2

/-- A delivery signed with a trigger's own secret. -/
def delivery (hmac : String → Bytes → List (Fin 16)) (token secret eventId : String) (now : Int) : Request where
  source := "github"
  headers := [("x-hub-signature-256", "sha256=" ++ hexdigest (hmac secret [0x7b, 0x7d])), ("x-github-delivery", eventId)]
  body := [0x7b, 0x7d]
  now := now
  triggers := [⟨0, "github", true, some token⟩]

theorem isAscii_hexdigest (digest : List (Fin 16)) : isAscii (hexdigest digest) = true := by
  have hdigit : ∀ d : Fin 16, (hexDigit d).toNat < 128 := by decide
  simp only [isAscii, hexdigest, String.toList_ofList, List.all_map, List.all_eq_true, Function.comp]
  intro d _
  exact decide_eq_true (hdigit d)

theorem removePrefix_append (start s : String) : removePrefix start (start ++ s) = s := by
  unfold removePrefix
  rw [String.toList_append, if_pos (List.isPrefixOf_iff_prefix.mpr (List.prefix_append ..))]
  rw [← String.length_toList, List.drop_left, String.ofList_toList]

theorem delivery_signature (hmac : String → Bytes → List (Fin 16)) (token secret eventId : String) (now : Int) :
    (delivery hmac token secret eventId now).headers.get "X-Hub-Signature-256" =
      some ("sha256=" ++ hexdigest (hmac secret [0x7b, 0x7d])) := by
  have hname : PyStr.lower "x-hub-signature-256".toList = PyStr.lower "X-Hub-Signature-256".toList := by decide
  unfold Headers.get delivery
  simp only [List.find?_cons, decide_eq_true hname]
  rfl

theorem delivery_eventId (hmac : String → Bytes → List (Fin 16)) (token secret eventId : String) (now : Int) :
    (delivery hmac token secret eventId now).headers.get "X-GitHub-Delivery" = some eventId := by
  have hother : PyStr.lower "x-hub-signature-256".toList ≠ PyStr.lower "X-GitHub-Delivery".toList := by decide
  have hname : PyStr.lower "x-github-delivery".toList = PyStr.lower "X-GitHub-Delivery".toList := by decide
  unfold Headers.get delivery
  simp only [List.find?_cons, decide_eq_false hother, decide_eq_true hname]
  rfl

theorem delivery_matches {token secret : String} (htoken : token ≠ "")
    (hdecrypt : decrypt token = some (.obj [("secret", .str secret)])) (eventId : String) (now : Int) :
    (matched decrypt hmac (delivery hmac token secret eventId now)).isSome = true := by
  have hverify : verifyHmac hmac secret [0x7b, 0x7d] ("sha256=" ++ hexdigest (hmac secret [0x7b, 0x7d])) = some true := by
    unfold verifyHmac compareDigest
    rw [removePrefix_append, isAscii_hexdigest]
    simp
  have hsig : (delivery hmac token secret eventId now).signature =
      some ("sha256=" ++ hexdigest (hmac secret [0x7b, 0x7d])) := by
    have hget := delivery_signature hmac token secret eventId now
    show Option.filter _ ((delivery hmac token secret eventId now).headers.get "X-Hub-Signature-256") = _
    rw [hget]
    simp [Option.filter]
  have hsecret : (⟨0, "github", true, some token⟩ : Trigger).secret = some token := by
    simp [Trigger.secret, Option.filter, htoken]
  unfold matched
  rw [hsig]
  simp only [delivery, findMatchingTrigger, List.filter_cons, List.filter_nil]
  simp [matchLoop, hsecret, secretOf, hdecrypt, Json.lookup, hverify]

theorem delivery_checked (hmac : String → Bytes → List (Fin 16)) (token secret : String) {eventId : String} (hid : eventId ≠ "") (now : Int) :
    (delivery hmac token secret eventId now).checked = some eventId := by
  have hget := delivery_eventId hmac token secret eventId now
  have heventId : (delivery hmac token secret eventId now).eventId = some eventId := by
    show Option.filter _ ((delivery hmac token secret eventId now).headers.get "X-GitHub-Delivery") = _
    rw [hget]
    simp [Option.filter, hid]
  have hsig : (delivery hmac token secret eventId now).signature.isSome = true := by
    have hget := delivery_signature hmac token secret eventId now
    show (Option.filter _ ((delivery hmac token secret eventId now).headers.get "X-Hub-Signature-256")).isSome = true
    rw [hget]
    simp [Option.filter]
  unfold Request.checked
  rw [hsig, heventId]
  rfl

theorem unaffected_iff_agree {token secret : String} (htoken : token ≠ "")
    (hdecrypt : decrypt token = some (.obj [("secret", .str secret)])) {s : St} (hn : Named s) :
    Unaffected decrypt hmac s ↔ Agree s ∧ Known s := by
  constructor
  · intro h
    constructor
    · intro x t ht
      by_cases hx : x = ""
      · subst hx
        constructor
        · intro hl
          rcases hl with ⟨entry, hentry, hid, -⟩
          exact absurd hid (hn.1 entry hentry)
        · intro hl
          rcases hl with ⟨entry, hentry, hid, -⟩
          exact absurd hid (hn.2 entry hentry)
      · have hc := delivery_checked hmac token secret hx t
        have hanswer := h.authentic _ ht (delivery_matches htoken hdecrypt x t)
        rw [receive_checked hc, receive_checked hc] at hanswer
        have hfirst := (receive_first decrypt hmac (delivery hmac token secret x t)).1
        rw [← isDuplicate_iff, ← isDuplicate_iff]
        have htime : (delivery hmac token secret x t).now = t := rfl
        rw [htime] at hanswer
        constructor
        · intro hdup
          rw [if_pos hdup] at hanswer
          by_contra hno
          rw [if_neg hno] at hanswer
          exact hfirst (congrArg Prod.fst hanswer).symm
        · intro hdup
          rw [if_pos hdup] at hanswer
          by_contra hno
          rw [if_neg hno] at hanswer
          exact hfirst (congrArg Prod.fst hanswer)
    · intro x t ht hl
      have hx : x ≠ "" := by
        intro hx
        rcases hl with ⟨entry, hentry, hid, -⟩
        exact hn.1 entry hentry (hid.trans hx)
      have hc := delivery_checked hmac token secret hx t
      have hanswer : (receiveWebhook decrypt hmac s.cache (delivery hmac token secret x t)).2.1 = .status "duplicate" := by
        have hdup : (isDuplicate (delivery hmac token secret x t).now s.cache x).1 = true := isDuplicate_iff.mpr hl
        rw [receive_checked hc, if_pos hdup]
      obtain ⟨eventId, hmem, hid⟩ := h.duplicate _ ht hanswer
      rw [(checked_eventId hc).1] at hid
      cases hid
      exact hmem
  · intro h
    rcases h with ⟨hagree, hknown⟩
    constructor
    · intro r ht _
      cases hc : r.checked with
      | none => rw [receive_unchecked hc, receive_unchecked hc]
      | some eventId =>
        have hdup : (isDuplicate r.now s.cache eventId).1 = (isDuplicate r.now s.alone eventId).1 :=
          Bool.eq_iff_iff.mpr (isDuplicate_iff.trans ((hagree eventId r.now ht).trans isDuplicate_iff.symm))
        rw [receive_checked hc, receive_checked hc, hdup]
    · intro r ht hanswer
      cases hc : r.checked with
      | none =>
        rw [receive_unchecked hc] at hanswer
        exact absurd hanswer (receive_first decrypt hmac r).1
      | some eventId =>
        rw [receive_checked hc] at hanswer
        by_cases hdup : (isDuplicate r.now s.cache eventId).1 = true
        · exact ⟨eventId, hknown eventId r.now ht (isDuplicate_iff.mp hdup), (checked_eventId hc).1⟩
        · rw [if_neg hdup] at hanswer
          exact absurd hanswer (receive_first decrypt hmac r).1

/-! ## A step -/

/-- What a request does to the caches and to what has been dispatched. -/
inductive Does (decrypt : String → Option Json) (hmac : String → Bytes → List (Fin 16)) (s : St) (r : Request) : St → Prop
  | unchecked (dispatched : List String) (hc : r.checked = none) (hsub : ∀ x ∈ s.dispatched, x ∈ dispatched) :
      Does decrypt hmac s r ⟨r.now, s.cache, s.alone, dispatched⟩
  | authentic (eventId : String) (dispatched : List String) (hc : r.checked = some eventId)
      (hm : (matched decrypt hmac r).isSome = true) (hsub : ∀ x ∈ s.dispatched, x ∈ dispatched)
      (hnew : ¬ Live s.cache eventId r.now → eventId ∈ dispatched) :
      Does decrypt hmac s r ⟨r.now, (isDuplicate r.now s.cache eventId).2, (isDuplicate r.now s.alone eventId).2, dispatched⟩
  | unmatched (eventId : String) (hc : r.checked = some eventId) (hm : ¬ (matched decrypt hmac r).isSome = true) :
      Does decrypt hmac s r ⟨r.now, (isDuplicate r.now s.cache eventId).2, s.alone, s.dispatched⟩

theorem step_does {s s' : St} {r : Request} (h : (machine decrypt hmac).step s r = some s') :
    s.now ≤ r.now ∧ Does decrypt hmac s r s' := by
  simp only [machine, Option.ite_none_right_eq_some, Option.some.injEq] at h
  obtain ⟨ht, rfl⟩ := h
  refine ⟨ht, ?_⟩
  have hsub : ∀ x ∈ s.dispatched, x ∈ (if (receiveWebhook decrypt hmac s.cache r).2.2.isSome = true
      then r.eventId.toList ++ s.dispatched else s.dispatched) := by
    intro x hx
    split
    · exact List.mem_append_right _ hx
    · exact hx
  cases hc : r.checked with
  | none =>
    have halone : (if (matched decrypt hmac r).isSome = true then (receiveWebhook decrypt hmac s.alone r).1 else s.alone) =
        s.alone := by
      rw [receive_unchecked hc]
      split <;> rfl
    rw [halone]
    have hcache : (receiveWebhook decrypt hmac s.cache r).1 = s.cache := by rw [receive_unchecked hc]
    rw [hcache]
    exact .unchecked _ hc hsub
  | some eventId =>
    have hcache : ∀ cache, (receiveWebhook decrypt hmac cache r).1 = (isDuplicate r.now cache eventId).2 := by
      intro cache
      rw [receive_checked hc]
    rw [hcache, hcache]
    by_cases hm : (matched decrypt hmac r).isSome = true
    · rw [if_pos hm]
      refine .authentic eventId _ hc hm hsub ?_
      intro hnew
      have hdup : ¬ (isDuplicate r.now s.cache eventId).1 = true := fun hd => hnew (isDuplicate_iff.mp hd)
      have hsome : (receiveWebhook decrypt hmac s.cache r).2.2.isSome = true := by
        rw [receive_checked hc, if_neg hdup, (receive_first decrypt hmac r).2]
        exact hm
      rw [if_pos hsome, (checked_eventId hc).1]
      exact List.mem_append_left _ (List.mem_singleton.mpr rfl)
    · rw [if_neg hm]
      have hnone : ¬ (receiveWebhook decrypt hmac s.cache r).2.2.isSome = true := by
        rw [receive_checked hc]
        split
        · exact Bool.false_ne_true
        · rw [(receive_first decrypt hmac r).2]
          exact hm
      rw [if_neg hnone]
      exact .unmatched eventId hc hm

theorem step_named {s s' : St} {r : Request} (hn : Named s) (h : (machine decrypt hmac).step s r = some s') :
    Named s' := by
  simp only [machine, Option.ite_none_right_eq_some, Option.some.injEq] at h
  obtain ⟨-, rfl⟩ := h
  refine ⟨receive_named hn.1 r, ?_⟩
  show ∀ entry ∈ (if (matched decrypt hmac r).isSome = true then (receiveWebhook decrypt hmac s.alone r).1 else s.alone),
    entry.1 ≠ ""
  split
  · exact receive_named hn.2 r
  · exact hn.2

/-- A step keeps the two caches together exactly if its request is harmless. -/
theorem step_agree {s s' : St} {r : Request} (h : (machine decrypt hmac).step s r = some s')
    (hp : Agree s ∧ Known s) : (Agree s' ∧ Known s') ↔ Harmless decrypt hmac s r := by
  obtain ⟨ht, hdoes⟩ := step_does h
  rcases hp with ⟨hagree, hknown⟩
  cases hdoes with
  | unchecked dispatched hc hsub =>
    refine iff_of_true ⟨?_, ?_⟩ (.inr fun eventId he => ?_)
    · intro x t hxt
      exact hagree x t (Int.le_trans ht hxt)
    · intro x t hxt hl
      exact hsub x (hknown x t (Int.le_trans ht hxt) hl)
    · rw [hc] at he
      cases he
  | authentic eventId dispatched hc hm hsub hnew =>
    refine iff_of_true ⟨?_, ?_⟩ (.inl hm)
    · intro x t hxt
      show Live (isDuplicate r.now s.cache eventId).2 x t ↔ Live (isDuplicate r.now s.alone eventId).2 x t
      rw [live_isDuplicate hxt, live_isDuplicate hxt, hagree x t (Int.le_trans ht hxt), hagree eventId r.now ht]
    · intro x t hxt hl
      rcases (live_isDuplicate hxt).mp hl with hl | ⟨hfresh, rfl, -⟩
      · exact hsub x (hknown x t (Int.le_trans ht hxt) hl)
      · exact hnew hfresh
  | unmatched eventId hc hm =>
    by_cases hl : Live s.cache eventId r.now
    · have hsame : ∀ x t, r.now ≤ t → (Live (isDuplicate r.now s.cache eventId).2 x t ↔ Live s.cache x t) := by
        intro x t hxt
        rw [live_isDuplicate hxt]
        simp [hl]
      refine iff_of_true ⟨?_, ?_⟩ (.inr fun id he => ?_)
      · intro x t hxt
        exact (hsame x t hxt).trans (hagree x t (Int.le_trans ht hxt))
      · intro x t hxt hlx
        exact hknown x t (Int.le_trans ht hxt) ((hsame x t hxt).mp hlx)
      · rw [hc] at he
        cases he
        exact hl
    · refine iff_of_false ?_ ?_
      · intro hp'
        have hnew : Live (isDuplicate r.now s.cache eventId).2 eventId r.now :=
          (live_isDuplicate (Int.le_refl _)).mpr (.inr ⟨hl, rfl, by simp [dedupTtl]⟩)
        exact hl ((hagree eventId r.now ht).mpr ((hp'.1 eventId r.now (Int.le_refl _)).mp hnew))
      · intro hharm
        rcases hharm with hmatch | hknow
        · exact hm hmatch
        · exact hl (hknow eventId hc)

/-! ## Runs -/

theorem start_named : Named start :=
  ⟨fun _ hentry => absurd hentry List.not_mem_nil, fun _ hentry => absurd hentry List.not_mem_nil⟩

/-- A matched request finds in the run without the others what `alone` says. -/
theorem step_follows {s s' v : St} {r : Request} (h : (machine decrypt hmac).step s r = some s')
    (hm : (matched decrypt hmac r).isSome = true) (ht : v.now ≤ s.now) (hcache : v.cache = s.alone) :
    ∃ v', (machine decrypt hmac).step v r = some v' ∧ v'.now ≤ s'.now ∧ v'.cache = s'.alone := by
  simp only [machine, Option.ite_none_right_eq_some, Option.some.injEq] at h ⊢
  obtain ⟨hs, rfl⟩ := h
  refine ⟨_, ⟨Int.le_trans ht hs, rfl⟩, Int.le_refl _, ?_⟩
  dsimp only
  rw [if_pos hm, hcache]

theorem step_unmatched {s s' : St} {r : Request} (h : (machine decrypt hmac).step s r = some s')
    (hm : ¬ (matched decrypt hmac r).isSome = true) : s.now ≤ s'.now ∧ s'.alone = s.alone := by
  simp only [machine, Option.ite_none_right_eq_some, Option.some.injEq] at h
  obtain ⟨hs, rfl⟩ := h
  exact ⟨hs, if_neg hm⟩

/-- `alone` is the cache of the run without the requests that match no trigger. -/
theorem alone_run {rs : List Request} {s s' v : St} (h : (machine decrypt hmac).exec s rs = some s')
    (ht : v.now ≤ s.now) (hcache : v.cache = s.alone) :
    ∃ u, (machine decrypt hmac).exec v (rs.filter fun r => (matched decrypt hmac r).isSome) = some u ∧
      u.cache = s'.alone := by
  induction rs generalizing s v with
  | nil =>
    cases h
    exact ⟨v, rfl, hcache⟩
  | cons r rs ih =>
    obtain ⟨t, hst, he⟩ := Option.bind_eq_some_iff.mp h
    by_cases hm : (matched decrypt hmac r).isSome = true
    · obtain ⟨v', hv, ht', hcache'⟩ := step_follows hst hm ht hcache
      rw [List.filter_cons, if_pos hm, Machine.exec_cons _ hv]
      exact ih he ht' hcache'
    · obtain ⟨ht', halone⟩ := step_unmatched hst hm
      rw [List.filter_cons, if_neg hm]
      exact ih he (Int.le_trans ht ht') (hcache.trans halone.symm)

/-- An authentic request is answered as if the unmatched ones had never been sent, and
    `duplicate` only for a dispatched event id, all along exactly the runs in which no
    unmatched request brings a new event id. -/
theorem unaffected_iff {token secret : String} (htoken : token ≠ "")
    (hdecrypt : decrypt token = some (.obj [("secret", .str secret)])) (rs : List Request) :
    (∀ n s, (machine decrypt hmac).exec start (rs.take n) = some s → Unaffected decrypt hmac s) ↔
      ∀ p ∈ (machine decrypt hmac).trace start rs, Harmless decrypt hmac p.1 p.2 := by
  have hstart : Unaffected decrypt hmac start := by
    refine (unaffected_iff_agree htoken hdecrypt start_named).mpr ⟨fun x t _ => Iff.rfl, ?_⟩
    intro x t _ hl
    rcases hl with ⟨entry, hentry, -⟩
    cases hentry
  have hstep : ∀ s r s', Named s → True → (machine decrypt hmac).step s r = some s' →
      Named s' ∧ (Unaffected decrypt hmac s → (Unaffected decrypt hmac s' ↔ Harmless decrypt hmac s r)) := by
    intro s r s' hn _ hst
    have hn' := step_named hn hst
    refine ⟨hn', ?_⟩
    intro hp
    rw [unaffected_iff_agree htoken hdecrypt hn']
    exact step_agree hst ((unaffected_iff_agree htoken hdecrypt hn).mp hp)
  rw [Machine.throughout_iff hstep start_named fun _ _ => trivial]
  exact and_iff_right hstart

end Open

/-! ## A forged delivery -/

def storedSecret (token : String) : Option Json := if token = "gAAAAAB" then some (.obj [("secret", .str "s3cret")]) else none

/-- The digest of `{}` under `s3cret`. -/
def digest : List (Fin 16) :=
  [10, 13, 11, 13, 14, 1, 12, 14, 4, 0, 12, 8, 9, 12, 1, 4, 2, 1, 5, 6, 8, 7, 13, 5, 13, 7, 6, 2, 10, 4, 7, 13, 15, 6, 13, 15, 10, 14, 15, 12, 15, 10, 13, 6, 1, 14, 2, 14, 8, 6, 7, 1, 8, 15, 15, 12, 8, 4, 9, 8, 5, 7, 1, 11]

def genuine : Request := delivery (fun _ _ => digest) "gAAAAAB" "s3cret" "72d3162e" 5

/-- The same event id, without the secret. -/
def forged : Request :=
  { genuine with headers := [("x-hub-signature-256", "sha256=00"), ("x-github-delivery", "72d3162e")], now := 4 }

/-- A request refused with 401 leaves its event id behind, and the delivery it belongs to is
    answered `duplicate` and never handled. -/
theorem a_forged_delivery_suppresses :
    ∃ s, (machine storedSecret fun _ _ => digest).exec start [forged] = some s ∧
      (matched storedSecret (fun _ _ => digest) genuine).isSome = true ∧
      (receiveWebhook storedSecret (fun _ _ => digest) s.cache genuine).2 = (.status "duplicate", none) ∧
      (receiveWebhook storedSecret (fun _ _ => digest) s.alone genuine).2.1 = .status "accepted" ∧
      s.dispatched = [] := by
  refine ⟨⟨4, [("72d3162e", 4)], [], []⟩, rfl, by decide, by decide, by decide, rfl⟩

/-- A run of one delivery has nothing to be affected by. -/
theorem unaffected_by_delivery :
    ((machine storedSecret fun _ _ => digest).exec start [genuine]).isSome = true ∧
      ∀ n s, (machine storedSecret fun _ _ => digest).exec start ([genuine].take n) = some s →
        Unaffected storedSecret (fun _ _ => digest) s := by
  refine ⟨rfl, ?_⟩
  refine (@unaffected_iff storedSecret (fun _ _ => digest) "gAAAAAB" "s3cret" (by decide) rfl [genuine]).mpr ?_
  intro p hp
  have hstep : (machine storedSecret fun _ _ => digest).trace start [genuine] = [(start, genuine)] := rfl
  rw [hstep, List.mem_singleton] at hp
  subst hp
  exact .inl (delivery_matches (by decide) rfl _ _)

end Errand.Server.Webhooks

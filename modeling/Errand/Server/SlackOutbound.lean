import Errand.Server.SlackTargets
import Errand.Lib.Json

/-
  Errand.Server.SlackOutbound — `slack_message` and `slack_reply` (errand/mcp_server.py) under
  the setting `slack_outbound_allowlist`, and `post_message_with_policy`
  (errand/platforms/slack/outbound.py), which joins a public channel and posts once more.

  A call is made with the memories some process has by then, all of them true; what fails is
  outside. A reply may come an hour later, or in another process.

  Proved:
  - `enforced_and_followed_iff`: a value that is set is enforced, and a reply follows every
    message, if and only if the value has an entry at all and lists, by its id, every
    conversation that a reading of an entry leads to.
  - `a_text_restricts_nothing`: a value that is no list lets every conversation through.
  - `a_dm_is_not_replied_to`: a message to a listed user is answered with a channel that no
    reply may go to.
-/

namespace Errand.Server.SlackOutbound

open Errand.Lib Errand.Lib.PyStr Errand.Server.SlackTargets

/-! ## Posting -/

/-- What `chat.postMessage` answers: with its own word for the channel, if it has one; with an
    error of Slack's; or with an exception and its text, an HTTP status's among them. -/
inductive Answer where
  | ok (channel : Option String) (ts : String)
  | error (code : String)
  | status (code : Nat) (retryAfter : Option String) (text : String)
  | raised (text : String)

inductive Joined where
  | ok
  | error (code : String)
  | raised (text : String)

/-- What is outside of a call: what `Outside` has, and Slack's answers to posts and joins. Slack
    answers a post with the channel it was for, and the time of the message. -/
structure Slack extends Outside where
  answers : Nat → String → Answer
  joins : Nat → String → Joined
  echoes : ∀ n c channel ts, answers n c = .ok (some channel) ts → channel = c
  stamped : ∀ n c channel ts, answers n c = .ok channel ts → (stripString ts).isEmpty = false

/-- What the tools answer: a text is the `error` of a dict, a resolution error the text of the
    exception. -/
inductive SendError where
  | text (s : String)
  | unresolved (error : Unresolved)

structure Sent where
  ok : Bool
  channel : String
  ts : String
  error : Option SendError

def failed (channel error : String) : Sent := ⟨false, channel, "", some (.text error)⟩

/-- A call's answer, the channels it posted to, and the memories afterwards. -/
structure Outcome where
  sent : Sent
  posted : List String
  memory : Memory

def refused (sent : Sent) (mem : Memory) : Outcome := ⟨sent, [], mem⟩

def isPublicChannelId (id : String) : Bool := id.toList.head? = some 'C'

/-- `evict_channel_cache_entry`. -/
def evictChannelCacheEntry (channel : String) (mem : Memory) : Memory :=
  { mem with
    caches := Function.update mem.caches .channel
      ((Dict.pop (Dict.pop (mem.caches .channel) channel)
        (String.ofList (channel.toList.dropWhile (· = '#')))).filter fun item => item.2.1 ≠ some channel) }

section Outer

variable (dir : Directory) (slack : Slack)

/-- The post that follows a join. -/
def postAgain (channel : String) (mem : Memory) : Sent :=
  match slack.answers mem.requests channel with
  | .ok echoed ts => ⟨true, echoed.getD channel, ts, none⟩
  | .error code => failed channel code
  | .status _ _ text => failed channel text
  | .raised text => failed channel text

/-- The join, after a first post. -/
def joinAndPostAgain (channel : String) (mem : Memory) : Outcome :=
  match slack.joins mem.requests channel with
  | .raised text =>
    ⟨failed channel s!"not_in_channel; auto-join failed: {text}", [channel], { mem with requests := mem.requests + 1 }⟩
  | .error code =>
    ⟨failed channel s!"not_in_channel; auto-join failed: {code}", [channel], { mem with requests := mem.requests + 1 }⟩
  | .ok =>
    ⟨postAgain slack channel { mem with requests := mem.requests + 1 }, [channel, channel],
      { mem with requests := mem.requests + 2 }⟩

def postMessageWithPolicy (channel : String) (mem : Memory) : Outcome :=
  match slack.answers mem.requests channel with
  | .ok echoed ts => ⟨⟨true, echoed.getD channel, ts, none⟩, [channel], { mem with requests := mem.requests + 1 }⟩
  | .status code retryAfter _ =>
    ⟨failed channel (if code = 429 then "rate_limited; retry after " ++ retryAfter.getD "?" ++ " seconds"
      else s!"http_{code}"), [channel], { mem with requests := mem.requests + 1 }⟩
  | .raised text => ⟨failed channel text, [channel], { mem with requests := mem.requests + 1 }⟩
  | .error code =>
    if code = "not_in_channel" ∧ isPublicChannelId channel then
      joinAndPostAgain slack channel { mem with requests := mem.requests + 1 }
    else if code = "channel_not_found" then
      ⟨failed channel code, [channel], evictChannelCacheEntry channel { mem with requests := mem.requests + 1 }⟩
    else ⟨failed channel code, [channel], { mem with requests := mem.requests + 1 }⟩

/-! ## The setting -/

/-- `_load_slack_outbound_allowlist`, past the query. -/
def loadSlackOutboundAllowlist : Option Json → List String
  | none => []
  | some value =>
    if value.truthy then
      match value with
      | .arr items => items.filterMap fun item => match item with
        | .str s => some s
        | _ => none
      | _ => []
    else []

/-! ## The tools -/

/-- `not text or not text.strip()`. -/
def blank (text : String) : Bool := (stripString text).isEmpty

/-- `slack_message`. `stored` is what the query for the setting gives; none is its failure. -/
def slackMessage (token : Option String) (stored : Option (Option Json)) (target text : String) (mem : Memory) :
    Outcome :=
  if blank target then refused (failed "" "target is required") mem
  else if blank text then refused (failed "" "text is required") mem
  else if (token.getD "").isEmpty then refused (failed "" "Slack credentials not configured") mem
  else
    match resolveSlackTarget dir slack.toOutside target mem with
    | (.error error, mem) => refused ⟨false, "", "", some (.unresolved error)⟩ mem
    | (.ok (kind, resolvedId), mem) =>
      match stored with
      | none => refused (failed resolvedId "allowlist unavailable; refusing to send") mem
      | some value =>
        match checkOutboundAllowlist dir slack.toOutside resolvedId (loadSlackOutboundAllowlist value) mem with
        | (false, mem) => refused (failed resolvedId "target not in slack_outbound_allowlist") mem
        | (true, mem) =>
          match kind with
          | .channel => postMessageWithPolicy slack resolvedId mem
          | .user =>
            match openDmChannel dir slack.toOutside resolvedId mem with
            | (none, mem) => refused (failed resolvedId "could not open DM channel (check im:write scope)") mem
            | (some channel, mem) => postMessageWithPolicy slack channel mem

/-- `slack_reply`. -/
def slackReply (token : Option String) (stored : Option (Option Json)) (channel threadTs text : String)
    (mem : Memory) : Outcome :=
  if blank channel then refused (failed "" "channel is required") mem
  else if !isConversationId (stripString channel) then
    refused (failed channel
      "channel must be a conversation ID (C…/D…/G…); resolve names via slack_message first") mem
  else if blank threadTs then refused (failed channel "thread_ts is required") mem
  else if blank text then refused (failed channel "text is required") mem
  else if (token.getD "").isEmpty then refused (failed channel "Slack credentials not configured") mem
  else
    match stored with
    | none => refused (failed channel "allowlist unavailable; refusing to send") mem
    | some value =>
      match checkOutboundAllowlist dir slack.toOutside channel (loadSlackOutboundAllowlist value) mem with
      | (false, mem) => refused (failed channel "channel not in slack_outbound_allowlist") mem
      | (true, mem) => postMessageWithPolicy slack channel mem

end Outer

/-! ## What the setting promises -/

/-- Anything but absent, null or an empty list. -/
def isSet : Option Json → Bool
  | none => false
  | some .null => false
  | some (.arr []) => false
  | some _ => true

/-- A text among the items of a list. -/
def Entry (value : Option Json) (entry : String) : Prop := ∃ items, value = some (.arr items) ∧ .str entry ∈ items

/-- A conversation whose id, or whose partner's, some entry denotes. -/
def Denoted (dir : Directory) (value : Option Json) (c : String) : Prop :=
  ∃ entry kind id, Entry value entry ∧ reading dir.find (parseTarget entry) = .ok (kind, id) ∧
    (id = c ∨ dir.partner c = some id)

/-- Both tools post to such conversations only. -/
structure Enforced (dir : Directory) (value : Option Json) : Prop where
  message : ∀ (slack : Slack) (mem : Memory), Sound dir mem → ∀ token stored target text,
    (∀ v, stored = some v → v = value) → ∀ c ∈ (slackMessage dir slack token stored target text mem).posted,
      isSet value = true → Denoted dir value c
  reply : ∀ (slack : Slack) (mem : Memory), Sound dir mem → ∀ token stored channel threadTs text,
    (∀ v, stored = some v → v = value) → ∀ c ∈ (slackReply dir slack token stored channel threadTs text mem).posted,
      isSet value = true → Denoted dir value c

/-- Where a message was sent, a reply is posted. -/
def RepliesFollow (dir : Directory) (value : Option Json) : Prop :=
  ∀ (slack : Slack) (mem : Memory), Sound dir mem → ∀ token target text,
    (slackMessage dir slack token (some value) target text mem).sent.ok = true →
    ∀ (slack' : Slack) (mem' : Memory), Sound dir mem' → ∀ text', blank text' = false →
      (slackReply dir slack' token (some value)
        (slackMessage dir slack token (some value) target text mem).sent.channel
        (slackMessage dir slack token (some value) target text mem).sent.ts text' mem').posted ≠ []

/-- The conversation a message to a target goes to. -/
def leadsTo (dir : Directory) : Kind → String → Option String
  | .channel, id => some id
  | .user, id => dir.openDm id

/-- Every conversation that a reading of an entry leads to, whichever lookups are down, is an
    entry by its id. -/
def Listed (dir : Directory) (value : Option Json) : Prop :=
  ∀ entry down kind id c, Entry value entry → reading (dir.without down) (parseTarget entry) = .ok (kind, id) →
    leadsTo dir kind id = some c → ∃ entry', Entry value entry' ∧ stripString entry' = c

/-! ## What is permitted -/

theorem mem_load {value : Option Json} {entry : String} :
    entry ∈ loadSlackOutboundAllowlist value ↔ Entry value entry := by
  unfold loadSlackOutboundAllowlist Entry
  cases value with
  | none => simp
  | some value =>
    cases value with
    | arr items =>
      cases items with
      | nil => simp [Json.truthy]
      | cons item items =>
        simp only [Json.truthy, List.isEmpty_cons, Bool.not_false, if_true, List.mem_filterMap]
        constructor
        · rintro ⟨j, hj, hs⟩
          cases j <;> cases hs
          exact ⟨_, rfl, hj⟩
        · rintro ⟨_, heq, hmem⟩
          cases heq
          exact ⟨.str entry, hmem, rfl⟩
    | _ => simp

theorem load_empty {value : Option Json} (h : ¬ ∃ entry, Entry value entry) : loadSlackOutboundAllowlist value = [] :=
  List.eq_nil_iff_forall_not_mem.mpr fun entry hentry => h ⟨entry, mem_load.mp hentry⟩

theorem load_of_entry {value : Option Json} {entry : String} (h : Entry value entry) :
    (loadSlackOutboundAllowlist value).isEmpty = false := by
  cases hl : loadSlackOutboundAllowlist value with
  | nil =>
    have hmem := mem_load.mpr h
    rw [hl] at hmem
    cases hmem
  | cons _ _ => rfl

theorem isSet_of_entry {value : Option Json} {entry : String} (h : Entry value entry) : isSet value = true := by
  obtain ⟨items, rfl, hmem⟩ := h
  cases items with
  | nil => cases hmem
  | cons _ _ => rfl

section Calls

variable {dir : Directory} {slack : Slack} {value : Option Json}

theorem check_sound (out : Outside) (id : String) (allowlist : List String) {mem : Memory} (hs : Sound dir mem) :
    Sound dir (checkOutboundAllowlist dir out id allowlist mem).2 := by
  unfold checkOutboundAllowlist
  split
  · exact hs
  · exact (checkEntries_spec allowlist hs).1

/-- What is permitted is a reading of an entry, where there are any. -/
theorem permitted_reading {id : String} {mem : Memory} {out : Outside} (hs : Sound dir mem)
    (hsome : ∃ entry, Entry value entry)
    (h : (checkOutboundAllowlist dir out id (loadSlackOutboundAllowlist value) mem).1 = true) :
    ∃ entry down kind, Entry value entry ∧ reading (dir.without down) (parseTarget entry) = .ok (kind, id) := by
  obtain ⟨e, he⟩ := hsome
  unfold checkOutboundAllowlist at h
  rw [if_neg (by rw [load_of_entry he]; decide)] at h
  obtain ⟨entry, hmem, down, kind, hreading⟩ := (checkEntries_spec _ hs).2 h
  exact ⟨entry, down, kind, mem_load.mp hmem, hreading⟩

/-- A conversation that is listed by its id is permitted, and so is any without a list. -/
theorem permitted_listed {id : String} {out : Outside} (hid : isConversationId id = true)
    (h : (∃ entry, Entry value entry) → ∃ entry, Entry value entry ∧ stripString entry = id) (mem : Memory) :
    (checkOutboundAllowlist dir out id (loadSlackOutboundAllowlist value) mem).1 = true := by
  unfold checkOutboundAllowlist
  split
  · rfl
  · rename_i hne
    by_cases hsome : ∃ entry, Entry value entry
    · obtain ⟨entry, hentry, hstrip⟩ := h hsome
      exact checkEntries_literal hid ⟨entry, mem_load.mpr hentry, hstrip⟩ mem
    · rw [load_empty hsome] at hne
      exact absurd rfl hne

/-! ## Posts -/

theorem post_posted {channel : String} {mem : Memory} :
    (postMessageWithPolicy slack channel mem).posted ≠ [] ∧
      ∀ c ∈ (postMessageWithPolicy slack channel mem).posted, c = channel := by
  unfold postMessageWithPolicy
  split
  · simp
  · simp
  · simp
  · split
    · unfold joinAndPostAgain
      split <;> simp
    · split <;> simp

theorem ok_echoes {n : Nat} {channel : String} {echoed : Option String} {ts : String}
    (h : slack.answers n channel = .ok echoed ts) : echoed.getD channel = channel ∧ blank ts = false := by
  refine ⟨?_, slack.stamped n channel echoed ts h⟩
  cases echoed with
  | none => rfl
  | some echoed => exact slack.echoes n channel echoed ts h

theorem postAgain_ok {channel : String} {mem : Memory} (h : (postAgain slack channel mem).ok = true) :
    (postAgain slack channel mem).channel = channel ∧ blank (postAgain slack channel mem).ts = false := by
  unfold postAgain at h ⊢
  split at h
  · rename_i hanswer
    exact ok_echoes hanswer
  · cases h
  · cases h
  · cases h

theorem joinAndPostAgain_ok {channel : String} {mem : Memory}
    (h : (joinAndPostAgain slack channel mem).sent.ok = true) :
    (joinAndPostAgain slack channel mem).sent.channel = channel ∧
      blank (joinAndPostAgain slack channel mem).sent.ts = false := by
  unfold joinAndPostAgain at h ⊢
  split at h
  · cases h
  · cases h
  · exact postAgain_ok h

/-- A post that succeeds is answered with the channel it was for, and a time. -/
theorem post_ok {channel : String} {mem : Memory} (h : (postMessageWithPolicy slack channel mem).sent.ok = true) :
    (postMessageWithPolicy slack channel mem).sent.channel = channel ∧
      blank (postMessageWithPolicy slack channel mem).sent.ts = false := by
  unfold postMessageWithPolicy at h ⊢
  split at h
  · rename_i hanswer
    exact ok_echoes hanswer
  · cases h
  · cases h
  · split at h
    · rename_i hjoin
      rw [if_pos hjoin]
      exact joinAndPostAgain_ok h
    · split at h <;> cases h

/-! ## The tools -/

/-- A message is refused, or it is posted where its target leads, which was permitted. -/
theorem message_cases (slack : Slack) {mem : Memory} (hs : Sound dir mem) (token : Option String)
    (stored : Option (Option Json)) (target text : String) :
    ((slackMessage dir slack token stored target text mem).posted = [] ∧
      (slackMessage dir slack token stored target text mem).sent.ok = false) ∨
    ∃ v kind id c down mem₁ mem₂, stored = some v ∧ (token.getD "").isEmpty = false ∧
      reading (dir.without down) (parseTarget target) = .ok (kind, id) ∧ Sound dir mem₁ ∧
      (checkOutboundAllowlist dir slack.toOutside id (loadSlackOutboundAllowlist v) mem₁).1 = true ∧
      leadsTo dir kind id = some c ∧
      slackMessage dir slack token stored target text mem = postMessageWithPolicy slack c mem₂ := by
  obtain ⟨hs₁, down, hreading⟩ := resolve_spec slack.toOutside hs target
  unfold slackMessage
  split
  · exact .inl ⟨rfl, rfl⟩
  · split
    · exact .inl ⟨rfl, rfl⟩
    · split
      · exact .inl ⟨rfl, rfl⟩
      · rename_i htoken
        split
        · exact .inl ⟨rfl, rfl⟩
        · rename_i kind id mem₁ hres
          rw [hres] at hs₁ hreading
          split
          · exact .inl ⟨rfl, rfl⟩
          · rename_i v
            have hs₂ := check_sound slack.toOutside id (loadSlackOutboundAllowlist v) hs₁
            split
            · exact .inl ⟨rfl, rfl⟩
            · rename_i mem₂ hcheck
              rw [hcheck] at hs₂
              have hpermitted := congrArg Prod.fst hcheck
              have htoken := Bool.not_eq_true _ ▸ htoken
              split
              · exact .inr ⟨v, .channel, id, id, down, mem₁, mem₂, rfl, htoken, hreading.symm, hs₁, hpermitted, rfl,
                  rfl⟩
              · have hfound := (lookUp_spec slack.toOutside hs₂ .dm id).2
                split
                · exact .inl ⟨rfl, rfl⟩
                · rename_i c mem₃ hopen
                  have hopened : (lookUp dir slack.toOutside .dm id mem₂).1 = some c := congrArg Prod.fst hopen
                  rw [hopened] at hfound
                  refine .inr ⟨v, .user, id, c, down, mem₁, mem₃, rfl, htoken, hreading.symm, hs₁, hpermitted, ?_, rfl⟩
                  exact (hfound.resolve_left nofun).symm

/-- A reply likewise. -/
theorem reply_cases (dir : Directory) (slack : Slack) (token : Option String) (stored : Option (Option Json))
    (channel threadTs text : String) (mem : Memory) :
    (slackReply dir slack token stored channel threadTs text mem).posted = [] ∨
    ∃ v mem', stored = some v ∧ isConversationId (stripString channel) = true ∧
      (checkOutboundAllowlist dir slack.toOutside channel (loadSlackOutboundAllowlist v) mem).1 = true ∧
      slackReply dir slack token stored channel threadTs text mem = postMessageWithPolicy slack channel mem' := by
  unfold slackReply
  split
  · exact .inl rfl
  · split
    · exact .inl rfl
    · rename_i hid
      split
      · exact .inl rfl
      · split
        · exact .inl rfl
        · split
          · exact .inl rfl
          · split
            · exact .inl rfl
            · split
              · exact .inl rfl
              · rename_i v mem' hcheck
                refine .inr ⟨_, mem', rfl, ?_, congrArg Prod.fst hcheck, rfl⟩
                rwa [Bool.not_eq_true', Bool.not_eq_false] at hid

theorem kind_unique (kind : Kind) {kind' : Kind} {id : String} (h : shapeOf kind id = true) (h' : shapeOf kind' id = true) :
    kind = kind' := by
  have hboth : ∀ {s : String}, isConversationId s = true → isUserId s = true → False := fun hc hu => by
    rw [conversationId_not_userId hc] at hu
    cases hu
  cases kind with
  | channel =>
    cases kind' with
    | channel => rfl
    | user => exact (hboth h h').elim
  | user =>
    cases kind' with
    | channel => exact (hboth h' h).elim
    | user => rfl

theorem leadsTo_shape {kind : Kind} {id c : String} (h : shapeOf kind id = true) (hc : leadsTo dir kind id = some c) :
    isConversationId c = true := by
  cases kind with
  | channel =>
    cases hc
    exact h
  | user => exact dir.openDm_shape id c hc

/-- Where a permitted target leads is listed by its id, if every such conversation is. -/
theorem listed_of_permitted (hl : Listed dir value) {kind : Kind} {id c : String} {mem : Memory} {out : Outside}
    (hs : Sound dir mem) (hshape : shapeOf kind id = true) (hsome : ∃ entry, Entry value entry)
    (h : (checkOutboundAllowlist dir out id (loadSlackOutboundAllowlist value) mem).1 = true)
    (hc : leadsTo dir kind id = some c) : ∃ entry, Entry value entry ∧ stripString entry = c := by
  obtain ⟨entry, down, kind', hentry, hreading⟩ := permitted_reading hs hsome h
  have hkind := kind_unique _ hshape (reading_shape hreading)
  subst hkind
  exact hl entry down kind id c hentry hreading hc

theorem denoted_of_listed {c : String} (hid : isConversationId c = true)
    (h : ∃ entry, Entry value entry ∧ stripString entry = c) : Denoted dir value c := by
  obtain ⟨entry, hentry, hstrip⟩ := h
  exact ⟨entry, .channel, c, hentry, by rw [parse_conversationId hid hstrip]; rfl, .inl rfl⟩

/-- A reply that is permitted is posted. -/
theorem reply_posts {token : Option String} {channel threadTs text : String} {mem : Memory}
    (hid : isConversationId channel = true) (hts : blank threadTs = false) (htext : blank text = false)
    (htoken : (token.getD "").isEmpty = false)
    (h : (checkOutboundAllowlist dir slack.toOutside channel (loadSlackOutboundAllowlist value) mem).1 = true) :
    (slackReply dir slack token (some value) channel threadTs text mem).posted ≠ [] := by
  obtain ⟨hstrip, hne⟩ := strip_conversationId hid
  have hblank : blank channel = false := by rw [blank, hstrip, hne]
  unfold slackReply
  simp only [hblank, hstrip, hid, hts, htext, htoken, Bool.not_true, Bool.false_eq_true, if_false]
  split
  · rename_i hcheck
    rw [hcheck] at h
    cases h
  · exact post_posted.1

/-- A message to an id that is permitted is posted where the id leads. -/
theorem message_posts (kind : Kind) {id : String} (c text : String) (token : Option String) {mem : Memory}
    (hs : Sound dir mem) (hshape : shapeOf kind id = true) (htext : blank text = false)
    (htoken : (token.getD "").isEmpty = false)
    (h : (checkOutboundAllowlist dir slack.toOutside id (loadSlackOutboundAllowlist value) mem).1 = true)
    (hc : leadsTo dir kind id = some c) (hup : ∀ n key, slack.fails n .dm key = false) :
    ∃ mem', slackMessage dir slack token (some value) id text mem = postMessageWithPolicy slack c mem' := by
  have hid : blank id = false ∧ resolveSlackTarget dir slack.toOutside id mem = (.ok (kind, id), mem) := by
    cases kind with
    | channel =>
      obtain ⟨hstrip, hne⟩ := strip_conversationId hshape
      exact ⟨by rw [blank, hstrip, hne], by rw [resolveSlackTarget, parse_conversationId hshape hstrip]⟩
    | user =>
      obtain ⟨hstrip, hne⟩ := strip_userId hshape
      exact ⟨by rw [blank, hstrip, hne], by rw [resolveSlackTarget, parse_userId hshape]⟩
  unfold slackMessage
  simp only [hid, htext, htoken, Bool.false_eq_true, if_false]
  split
  · rename_i hcheck
    rw [hcheck] at h
    cases h
  · rename_i mem' hcheck
    have hs' := check_sound slack.toOutside id (loadSlackOutboundAllowlist value) hs
    rw [hcheck] at hs'
    cases kind with
    | channel =>
      cases hc
      exact ⟨mem', rfl⟩
    | user =>
      have hopen : (openDmChannel dir slack.toOutside id mem').1 = some c :=
        (lookUp_up hs' fun n => hup n id).trans hc
      simp only
      split
      · rename_i hnone
        rw [hnone] at hopen
        cases hopen
      · rename_i c' mem'' hsome
        rw [hsome] at hopen
        cases hopen
        exact ⟨mem'', rfl⟩

end Calls

/-! ## When the setting is enforced -/

/-- Slack with the lookups of some kinds down, and every post going through. -/
def slackWithout (down : Lookup → Bool) : Slack where
  now := fun _ => 0
  fails := fun _ kind _ => down kind
  answers := fun _ _ => .ok none "1700000000.000100"
  joins := fun _ _ => .ok
  echoes := fun _ _ _ _ h => by cases h
  stamped := fun _ _ _ _ h => by cases h; decide

def fresh : Memory := ⟨fun _ => [], 0⟩

theorem fresh_down (dir : Directory) (down : Lookup → Bool) : Down dir down fresh :=
  ⟨fun _ _ _ _ h => by simp [fresh, Dict.get?] at h, fun _ _ => rfl⟩

section Values

variable {dir : Directory} {value : Option Json}

theorem check_without {down : Lookup → Bool} {id : String} (hsome : ∃ entry, Entry value entry) :
    (checkOutboundAllowlist dir (slackWithout down).toOutside id (loadSlackOutboundAllowlist value) fresh).1 = true ↔
      ∃ entry kind, Entry value entry ∧ reading (dir.without down) (parseTarget entry) = .ok (kind, id) := by
  obtain ⟨e, he⟩ := hsome
  unfold checkOutboundAllowlist
  rw [if_neg (by rw [load_of_entry he]; decide), checkEntries_down (fun _ _ _ => rfl) _ (fresh_down dir down)]
  constructor
  · rintro ⟨entry, hmem, kind, hreading⟩
    exact ⟨entry, kind, mem_load.mp hmem, hreading⟩
  · rintro ⟨entry, kind, hentry, hreading⟩
    exact ⟨entry, mem_load.mpr hentry, kind, hreading⟩

/-- A set value without an entry lets a message through to any conversation. -/
theorem entry_of_enforced (he : Enforced dir value) (hset : isSet value = true) : ∃ entry, Entry value entry := by
  by_contra hno
  have hpermitted : (checkOutboundAllowlist dir (slackWithout fun _ => false).toOutside "C00000000"
      (loadSlackOutboundAllowlist value) fresh).1 = true := by
    rw [load_empty hno]
    rfl
  obtain ⟨mem', hposted⟩ := message_posts .channel "C00000000" "hi" (some "xoxb")
    (fresh_down dir fun _ => false).sound (by decide) (by decide) (by decide) hpermitted rfl fun _ _ => rfl
  have hdenoted := he.message (slackWithout fun _ => false) fresh (fresh_down dir fun _ => false).sound (some "xoxb")
    (some value) "C00000000" "hi" (fun _ h => (Option.some.inj h).symm) "C00000000" (by
      rw [hposted]
      exact List.mem_cons_self) hset
  obtain ⟨entry, -, -, hentry, -⟩ := hdenoted
  exact hno ⟨entry, hentry⟩

/-- If a reply follows every message, then wherever a reading leads is listed: with every
    lookup down at the reply, nothing but the id itself is recognised. -/
theorem listed_of_follow (hr : RepliesFollow dir value) : Listed dir value := by
  intro entry down kind id c hentry hreading hleads
  let down' : Lookup → Bool := fun k => decide (k ≠ .dm) && down k
  have hreading' : reading (dir.without down') (parseTarget entry) = .ok (kind, id) := by
    refine Eq.trans (reading_congr (fun k key hk => ?_) _) hreading
    simp only [Directory.without, down', hk, ne_eq, not_false_eq_true, decide_true, Bool.true_and]
  have hsound := (fresh_down dir down').sound
  have hpermitted := (check_without ⟨entry, hentry⟩).mpr ⟨entry, kind, hentry, hreading'⟩
  have hshape := reading_shape hreading'
  obtain ⟨mem', hposted⟩ := message_posts kind c "hi" (some "xoxb") hsound hshape (by decide) (by decide)
    hpermitted hleads fun _ _ => rfl
  have hfollows := hr (slackWithout down') fresh hsound (some "xoxb") id "hi" (by rw [hposted]; rfl)
    (slackWithout fun _ => true) fresh (fresh_down dir fun _ => true).sound "hi" (by decide)
  rw [hposted] at hfollows
  rcases reply_cases dir (slackWithout fun _ => true) (some "xoxb") (some value) c "1700000000.000100" "hi" fresh with
    hnone | ⟨v, _, hv, -, hcheck, -⟩
  · exact absurd hnone hfollows
  · cases hv
    obtain ⟨entry', kind', hentry', hliteral⟩ := (check_without ⟨entry, hentry⟩).mp hcheck
    exact ⟨entry', hentry', reading_none hliteral (leadsTo_shape hshape hleads)⟩

theorem enforced_of_listed (h : isSet value = true → (∃ entry, Entry value entry) ∧ Listed dir value) :
    Enforced dir value := by
  constructor
  · intro slack mem hs token stored target text hstored c hc hset
    obtain ⟨hsome, hl⟩ := h hset
    rcases message_cases slack hs token stored target text with
      ⟨hnone, -⟩ | ⟨v, kind, id, c', down, mem₁, mem₂, hv, -, hreading, hs₁, hcheck, hleads, heq⟩
    · rw [hnone] at hc
      cases hc
    · cases hstored v hv
      rw [heq] at hc
      cases post_posted.2 c hc
      have hshape := reading_shape hreading
      exact denoted_of_listed (leadsTo_shape hshape hleads)
        (listed_of_permitted hl hs₁ hshape hsome hcheck hleads)
  · intro slack mem hs token stored channel threadTs text hstored c hc hset
    obtain ⟨hsome, hl⟩ := h hset
    rcases reply_cases dir slack token stored channel threadTs text mem with
      hnone | ⟨v, mem', hv, hid, hcheck, heq⟩
    · rw [hnone] at hc
      cases hc
    · cases hstored v hv
      rw [heq] at hc
      have hchannel := post_posted.2 c hc
      subst hchannel
      obtain ⟨entry, down, kind, hentry, hreading⟩ := permitted_reading hs hsome hcheck
      have hshape := reading_shape hreading
      cases kind with
      | channel => exact denoted_of_listed hshape (hl entry down .channel c c hentry hreading rfl)
      | user =>
        rw [(strip_userId hshape).1] at hid
        cases kind_unique .channel hid hshape

theorem follow_of_listed (h : (∃ entry, Entry value entry) → Listed dir value) : RepliesFollow dir value := by
  intro slack mem hs token target text hok slack' mem' hs' text' htext'
  rcases message_cases slack hs token (some value) target text with
    ⟨-, hfailed⟩ | ⟨v, kind, id, c, down, mem₁, mem₂, hv, htoken, hreading, hs₁, hcheck, hleads, heq⟩
  · rw [hok] at hfailed
    cases hfailed
  · cases hv
    rw [heq] at hok ⊢
    obtain ⟨hchannel, hts⟩ := post_ok hok
    have hshape := reading_shape hreading
    have hid := leadsTo_shape hshape hleads
    rw [hchannel]
    exact reply_posts hid hts htext' htoken (permitted_listed hid (fun hsome =>
      listed_of_permitted (h hsome) hs₁ hshape hsome hcheck hleads) mem')

end Values

/-- The setting is enforced and replies follow messages exactly if a value that is set has an
    entry, and every conversation that a reading of an entry leads to is an entry by its id. -/
theorem enforced_and_followed_iff (dir : Directory) (value : Option Json) :
    Enforced dir value ∧ RepliesFollow dir value ↔
      (isSet value = true → (∃ entry, Entry value entry) ∧ Listed dir value) := by
  constructor
  · rintro ⟨he, hr⟩ hset
    exact ⟨entry_of_enforced he hset, listed_of_follow hr⟩
  · intro h
    refine ⟨enforced_of_listed h, follow_of_listed ?_⟩
    rintro ⟨entry, hentry⟩
    exact (h (isSet_of_entry hentry)).2

/-! ## Two ways it fails -/

theorem office_byEmail : ∀ (_ id : String), (none : Option String) = some id → isUserId id = true := by
  intro address id h
  cases h

/-- A workspace with one user, `rob`, and a DM with him. -/
def office : Directory where
  channels := []
  members := [⟨"U024BE7LH", "rob", "Rob", false, by decide⟩]
  byEmail := fun _ => none
  openDm := fun id => if id = "U024BE7LH" then some "D024BE91L" else none
  partner := fun c => if c = "D024BE91L" then some "U024BE7LH" else none
  byEmail_shape := office_byEmail
  openDm_shape := fun _ _ h => by
    split at h <;> cases h
    decide
  openDm_partner := fun _ _ h => by
    split at h <;> cases h
    rename_i hid
    rw [if_pos rfl, hid]

/-- A value that is no list is set, and restricts nothing. -/
theorem a_text_restricts_nothing :
    isSet (some (.str "C0123ABCD")) = true ∧
      (slackMessage office (slackWithout fun _ => false) (some "xoxb") (some (some (.str "C0123ABCD"))) "C9876ZYXW" "hi"
        fresh).posted = ["C9876ZYXW"] ∧
      ¬ Denoted office (some (.str "C0123ABCD")) "C9876ZYXW" := by
  refine ⟨rfl, by decide, ?_⟩
  rintro ⟨_, _, _, ⟨_, hitems, _⟩, _⟩
  cases hitems

/-- A message to a listed user is posted to the DM with him, and a reply there is refused,
    though nothing fails. -/
theorem a_dm_is_not_replied_to :
    (slackMessage office (slackWithout fun _ => false) (some "xoxb") (some (some (.arr [.str "@rob"]))) "@rob" "hi"
        fresh).sent = ⟨true, "D024BE91L", "1700000000.000100", none⟩ ∧
      (slackReply office (slackWithout fun _ => false) (some "xoxb") (some (some (.arr [.str "@rob"]))) "D024BE91L"
        "1700000000.000100" "hi" fresh).sent = failed "D024BE91L" "channel not in slack_outbound_allowlist" := by
  constructor <;> rfl

end Errand.Server.SlackOutbound

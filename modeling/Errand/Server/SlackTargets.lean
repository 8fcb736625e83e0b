import Mathlib.Logic.Function.Basic
import Errand.Lib.Dict
import Errand.Lib.PyStr

/-
  Errand.Server.SlackTargets — what a Slack target names (`resolve_slack_target`,
  errand/platforms/slack/identity.py), and whether an id is permitted by a list of targets
  (`check_outbound_allowlist`, allowlist.py).

  A workspace's directory stands still; any lookup in it may fail, and one that did not is
  remembered for an hour, where the function says so. A target's `reading` is what it
  resolves to when the lookups answer what they are given: the directory, for what the
  target denotes, or the directory with the lookups of some kinds down.

  Proved:
  - `resolve_spec`: with true memories a target resolves to one of its readings.
  - `resolve_down`: and with some kinds down throughout, to the reading without them.
  - `reading_shape`: what a target resolves to has the shape of its kind's ids.
  - `checkEntries_spec`, `checkEntries_down`, `checkEntries_literal`: the same for a list, and
    an id that stands in it is permitted whatever fails.
-/

namespace Errand.Server.SlackTargets

open Errand.Lib Errand.Lib.PyStr

/-! ## Ids -/

def isUpperOrDigit (c : Char) : Bool := ('A' ≤ c && c ≤ 'Z') || ('0' ≤ c && c ≤ '9')

/-- `^[…][A-Z0-9]{8,}$` on a text that ends in no newline. -/
def isId (first : List Char) (s : String) : Bool :=
  match s.toList with
  | [] => false
  | c :: rest => first.contains c && decide (8 ≤ rest.length) && rest.all isUpperOrDigit

def isConversationId (s : String) : Bool := isId ['C', 'D', 'G'] s

def isUserId (s : String) : Bool := isId ['U', 'W'] s

/-- `^[^\s@]+@[^\s@]+\.[^\s@]+$` likewise: one `@`, and behind it a dot that is neither first
    nor last. -/
def isEmail (s : String) : Bool :=
  match splitRun (fun c => !isSpace c && c != '@') s.toList with
  | (name, '@' :: domain) =>
    !name.isEmpty && domain.all (fun c => !isSpace c && c != '@') && domain.tail.dropLast.contains '.'
  | _ => false

/-! ## The directory -/

structure Channel where
  id : String
  name : String
  shape : isConversationId id = true

structure Member where
  id : String
  name : String
  displayName : String
  deleted : Bool
  shape : isUserId id = true

/-- What is looked up: `users.lookupByEmail`, `conversations.list`, `users.list`,
    `conversations.open`. -/
inductive Lookup where
  | email
  | channel
  | user
  | dm
  deriving DecidableEq

/-- A workspace: its channels and members in the order they are listed, the user of an e-mail
    address, the conversation that `conversations.open` answers for a user, and the partner of
    a conversation that is a DM. Slack's ids have the shapes `identity.py` states. -/
structure Directory where
  channels : List Channel
  members : List Member
  byEmail : String → Option String
  openDm : String → Option String
  partner : String → Option String
  byEmail_shape : ∀ address id, byEmail address = some id → isUserId id = true
  openDm_shape : ∀ id c, openDm id = some c → isConversationId c = true
  openDm_partner : ∀ id c, openDm id = some c → partner c = some id

/-- What a lookup that does not fail finds. -/
def Directory.find (dir : Directory) : Lookup → String → Option String
  | .email, address => dir.byEmail address
  | .channel, name => (dir.channels.find? fun c => c.name == name).map Channel.id
  | .user, name =>
    (dir.members.find? fun m => !m.deleted && (m.name == name || m.displayName == name)).map Member.id
  | .dm, id => dir.openDm id

/-- The directory with the lookups of some kinds down. -/
def Directory.without (dir : Directory) (down : Lookup → Bool) (kind : Lookup) (key : String) : Option String :=
  if down kind then none else dir.find kind key

/-! ## Lookups and their memories -/

abbrev Cache := List (String × Option String × Nat)

/-- The module's caches, by lookup (of `_email_cache`, the keys that begin with `email:`), and
    the number of requests to Slack so far. -/
structure Memory where
  caches : Lookup → Cache
  requests : Nat

/-- What is outside: the clock, and the lookups that fail, both by request. -/
structure Outside where
  now : Nat → Nat
  fails : Nat → Lookup → String → Bool

def cacheTtl : Nat := 3600

/-- `_cache_get`: the remembered value if there is one, and the cache afterwards. -/
def cacheGet (now : Nat) (cache : Cache) (key : String) : Option (Option String) × Cache :=
  match Dict.get? cache key with
  | none => (none, cache)
  | some (value, time) => if cacheTtl ≤ now - time then (none, Dict.pop cache key) else (some value, cache)

/-- Whether a lookup that finds nothing is remembered: `users.lookupByEmail` and
    `conversations.open` raise there. -/
def remembersNothing : Lookup → Bool
  | .channel => true
  | .user => true
  | .email => false
  | .dm => false

section Outer

variable (dir : Directory) (out : Outside)

/-- The four lookups. -/
def lookUp (kind : Lookup) (key : String) (mem : Memory) : Option String × Memory :=
  match cacheGet (out.now mem.requests) (mem.caches kind) key with
  | (some value, cache) => (value, { mem with caches := Function.update mem.caches kind cache })
  | (none, cache) =>
    let mem := { caches := Function.update mem.caches kind cache, requests := mem.requests + 1 }
    if out.fails (mem.requests - 1) kind key then (none, mem)
    else
      let found := dir.find kind key
      if found.isSome || remembersNothing kind then
        (found, { mem with
          caches := Function.update mem.caches kind (Dict.set cache key (found, out.now (mem.requests - 1))) })
      else (none, mem)

def resolveUserByEmail (address : String) (mem : Memory) : Option String × Memory := lookUp dir out .email address mem

def resolveChannelByName (name : String) (mem : Memory) : Option String × Memory := lookUp dir out .channel name mem

def resolveUserByUsername (name : String) (mem : Memory) : Option String × Memory := lookUp dir out .user name mem

def openDmChannel (id : String) (mem : Memory) : Option String × Memory := lookUp dir out .dm id mem

/-! ## Targets -/

inductive Kind where
  | channel
  | user
  deriving DecidableEq

/-- A `TargetResolutionError`, with what its message names. -/
inductive Unresolved where
  | empty
  | noEmail (address : String)
  | noChannel (name : String)
  | noUser (name : String)
  | ambiguous (name : String)
  | noMatch (name : String)

/-- The forms of a target, in the order they are tried. -/
inductive Target where
  | empty
  | channelId (id : String)
  | userId (id : String)
  | email (address : String)
  | channelName (name : String)
  | userName (name : String)
  | bareName (name : String)

def parseTarget (target : String) : Target :=
  let raw := stripString target
  if raw.isEmpty then .empty
  else if isConversationId raw then .channelId raw
  else if isUserId raw then .userId raw
  else if isEmail raw then .email raw
  else
    match raw.toList with
    | '#' :: name => .channelName (String.ofList name)
    | '@' :: name => .userName (String.ofList name)
    | _ => .bareName raw

/-- A bare name, looked up as both. -/
def bare (name : String) : Option String → Option String → Except Unresolved (Kind × String)
  | some _, some _ => .error (.ambiguous name)
  | some channel, none => .ok (.channel, channel)
  | none, some user => .ok (.user, user)
  | none, none => .error (.noMatch name)

/-- A lookup's answer, or the error of there being none. -/
def orElse (kind : Kind) (error : Unresolved) : Option String → Except Unresolved (Kind × String)
  | some id => .ok (kind, id)
  | none => .error error

def resolveSlackTarget (target : String) (mem : Memory) : Except Unresolved (Kind × String) × Memory :=
  match parseTarget target with
  | .empty => (.error .empty, mem)
  | .channelId id => (.ok (.channel, id), mem)
  | .userId id => (.ok (.user, id), mem)
  | .email address =>
    let (found, mem) := resolveUserByEmail dir out address mem
    (orElse .user (.noEmail address) found, mem)
  | .channelName name =>
    let (found, mem) := resolveChannelByName dir out name mem
    (orElse .channel (.noChannel name) found, mem)
  | .userName name =>
    let (found, mem) := resolveUserByUsername dir out name mem
    (orElse .user (.noUser name) found, mem)
  | .bareName name =>
    let (channel, mem) := resolveChannelByName dir out name mem
    let (user, mem) := resolveUserByUsername dir out name mem
    (bare name channel user, mem)

/-- The entries of an allowlist, one after another. -/
def checkEntries (resolvedId : String) : List String → Memory → Bool × Memory
  | [], mem => (false, mem)
  | entry :: entries, mem =>
    if (stripString entry).isEmpty then checkEntries resolvedId entries mem
    else
      match resolveSlackTarget dir out entry mem with
      | (.ok (_, id), mem) => if id = resolvedId then (true, mem) else checkEntries resolvedId entries mem
      | (.error _, mem) => checkEntries resolvedId entries mem

def checkOutboundAllowlist (resolvedId : String) (allowlist : List String) (mem : Memory) : Bool × Memory :=
  if allowlist.isEmpty then (true, mem) else checkEntries dir out resolvedId allowlist mem

end Outer

/-! ## What a target reads as -/

/-- What a target resolves to when the lookups answer `find`. -/
def reading (find : Lookup → String → Option String) : Target → Except Unresolved (Kind × String)
  | .empty => .error .empty
  | .channelId id => .ok (.channel, id)
  | .userId id => .ok (.user, id)
  | .email address => orElse .user (.noEmail address) (find .email address)
  | .channelName name => orElse .channel (.noChannel name) (find .channel name)
  | .userName name => orElse .user (.noUser name) (find .user name)
  | .bareName name => bare name (find .channel name) (find .user name)

section Readings

variable {dir : Directory} {out : Outside}

/-! ## True memories -/

/-- What is remembered is what the directory says. -/
def Sound (dir : Directory) (mem : Memory) : Prop :=
  ∀ kind key value time, Dict.get? (mem.caches kind) key = some (value, time) → value = dir.find kind key

theorem cacheGet_hit {now : Nat} {cache : Cache} {key : String} {value : Option String}
    (h : (cacheGet now cache key).1 = some value) : ∃ time, Dict.get? cache key = some (value, time) := by
  unfold cacheGet at h
  cases hg : Dict.get? cache key with
  | none =>
    rw [hg] at h
    cases h
  | some item =>
    obtain ⟨remembered, time⟩ := item
    rw [hg] at h
    simp only at h
    split at h
    · cases h
    · cases h
      exact ⟨time, rfl⟩

/-- A cache only forgets when it is read. -/
theorem cacheGet_keeps {now : Nat} {cache : Cache} {key k : String} {item : Option String × Nat}
    (h : Dict.get? (cacheGet now cache key).2 k = some item) : Dict.get? cache k = some item := by
  unfold cacheGet at h
  split at h
  · exact h
  · split at h
    · exact (Dict.get?_pop_some h).2
    · exact h

theorem sound_update {mem : Memory} (hs : Sound dir mem) {kind : Lookup} {cache : Cache} (requests : Nat)
    (h : ∀ key value time, Dict.get? cache key = some (value, time) → value = dir.find kind key) :
    Sound dir { caches := Function.update mem.caches kind cache, requests := requests } := by
  intro k key value time hget
  simp only at hget
  by_cases hk : k = kind
  · subst hk
    rw [Function.update_self] at hget
    exact h key value time hget
  · rw [Function.update_of_ne hk] at hget
    exact hs k key value time hget

/-- A lookup answers nothing, or what the directory says, and remembers no more. -/
theorem lookUp_spec (out : Outside) {mem : Memory} (hs : Sound dir mem) (kind : Lookup) (key : String) :
    Sound dir (lookUp dir out kind key mem).2 ∧
      ((lookUp dir out kind key mem).1 = none ∨ (lookUp dir out kind key mem).1 = dir.find kind key) := by
  have hread : ∀ k value time, Dict.get? (cacheGet (out.now mem.requests) (mem.caches kind) key).2 k =
      some (value, time) → value = dir.find kind k := fun k value time h => hs kind k value time (cacheGet_keeps h)
  unfold lookUp
  split
  · rename_i value cache hg
    rw [hg] at hread
    obtain ⟨time, htime⟩ := cacheGet_hit (congrArg Prod.fst hg)
    exact ⟨sound_update hs _ hread, .inr (hs kind key value time htime)⟩
  · rename_i cache hg
    rw [hg] at hread
    have hmissed := sound_update hs (mem.requests + 1) hread
    simp only
    split
    · exact ⟨hmissed, .inl rfl⟩
    · split
      · refine ⟨?_, .inr rfl⟩
        simp only [Function.update_idem]
        refine sound_update hs _ fun k value time h => ?_
        rcases Dict.get?_set_cases h with ⟨hk, hv⟩ | ⟨-, h⟩
        · cases hk
          cases hv
          rfl
        · exact hread k value time h
      · exact ⟨hmissed, .inl rfl⟩

/-! ## Lookups that are down, or not -/

theorem lookUp_other (dir : Directory) (out : Outside) {kind k : Lookup} (h : k ≠ kind) (key : String) (mem : Memory) :
    (lookUp dir out kind key mem).2.caches k = mem.caches k := by
  unfold lookUp
  split
  · simp only [Function.update_of_ne h]
  · simp only
    split
    · simp only [Function.update_of_ne h]
    · split <;> simp only [Function.update_of_ne h]

theorem lookUp_up {mem : Memory} (hs : Sound dir mem) {kind : Lookup} {key : String}
    (hf : ∀ n, out.fails n kind key = false) : (lookUp dir out kind key mem).1 = dir.find kind key := by
  unfold lookUp
  split
  · rename_i value cache hg
    obtain ⟨time, htime⟩ := cacheGet_hit (congrArg Prod.fst hg)
    exact hs kind key value time htime
  · simp only [hf, Bool.false_eq_true, if_false]
    split
    · rfl
    · rename_i hnone
      cases hfound : dir.find kind key with
      | none => rfl
      | some id =>
        rw [hfound] at hnone
        exact absurd rfl hnone

theorem lookUp_silent (dir : Directory) {mem : Memory} {kind : Lookup} {key : String} (hf : ∀ n, out.fails n kind key = true)
    (h : mem.caches kind = []) :
    (lookUp dir out kind key mem).1 = none ∧ (lookUp dir out kind key mem).2.caches kind = [] := by
  unfold lookUp
  rw [h]
  simp [cacheGet, Dict.get?, hf]

/-- Memories with some kinds of lookup down from the start. -/
structure Down (dir : Directory) (down : Lookup → Bool) (mem : Memory) : Prop where
  sound : Sound dir mem
  silent : ∀ kind, down kind = true → mem.caches kind = []

theorem lookUp_down {mem : Memory} {down : Lookup → Bool} (hf : ∀ n kind key, out.fails n kind key = down kind)
    (hd : Down dir down mem) (kind : Lookup) (key : String) :
    (lookUp dir out kind key mem).1 = dir.without down kind key ∧ Down dir down (lookUp dir out kind key mem).2 := by
  have hsound := (lookUp_spec out hd.sound kind key).1
  cases hk : down kind with
  | false =>
    refine ⟨?_, hsound, fun k hdown => ?_⟩
    · rw [lookUp_up hd.sound fun n => (hf n kind key).trans hk, Directory.without, if_neg (by rw [hk]; decide)]
    · have hne : k ≠ kind := by
        rintro rfl
        rw [hk] at hdown
        cases hdown
      rw [lookUp_other dir out hne]
      exact hd.silent k hdown
  | true =>
    obtain ⟨hnone, hempty⟩ := lookUp_silent dir (fun n => (hf n kind key).trans hk) (hd.silent kind hk)
    refine ⟨?_, hsound, fun k hdown => ?_⟩
    · rw [hnone, Directory.without, if_pos hk]
    · by_cases hne : k = kind
      · rw [hne, hempty]
      · rw [lookUp_other dir out hne]
        exact hd.silent k hdown

/-! ## Targets -/

/-- With some kinds down, a target resolves to its reading without them. -/
theorem resolve_down {mem : Memory} {down : Lookup → Bool} (hf : ∀ n kind key, out.fails n kind key = down kind)
    (hd : Down dir down mem) (target : String) :
    (resolveSlackTarget dir out target mem).1 = reading (dir.without down) (parseTarget target) ∧
      Down dir down (resolveSlackTarget dir out target mem).2 := by
  unfold resolveSlackTarget
  cases parseTarget target with
  | empty => exact ⟨rfl, hd⟩
  | channelId id => exact ⟨rfl, hd⟩
  | userId id => exact ⟨rfl, hd⟩
  | email address =>
    obtain ⟨hfound, hd'⟩ := lookUp_down hf hd .email address
    exact ⟨congrArg (orElse .user (.noEmail address)) hfound, hd'⟩
  | channelName name =>
    obtain ⟨hfound, hd'⟩ := lookUp_down hf hd .channel name
    exact ⟨congrArg (orElse .channel (.noChannel name)) hfound, hd'⟩
  | userName name =>
    obtain ⟨hfound, hd'⟩ := lookUp_down hf hd .user name
    exact ⟨congrArg (orElse .user (.noUser name)) hfound, hd'⟩
  | bareName name =>
    obtain ⟨hchannel, hd'⟩ := lookUp_down hf hd .channel name
    obtain ⟨huser, hd''⟩ := lookUp_down hf hd' .user name
    exact ⟨congrArg₂ (bare name) hchannel huser, hd''⟩

/-- A lookup that may fail is one of the directory with that kind down, or not. -/
theorem lookUp_cases (out : Outside) {mem : Memory} (hs : Sound dir mem) (kind : Lookup) (key : String) :
    ∃ fails : Bool, (lookUp dir out kind key mem).1 = if fails then none else dir.find kind key := by
  rcases (lookUp_spec out hs kind key).2 with h | h
  · exact ⟨true, by rw [h, if_pos rfl]⟩
  · exact ⟨false, by rw [h, if_neg (by decide)]⟩

/-- Whatever fails, a target resolves to one of its readings. -/
theorem resolve_spec (out : Outside) {mem : Memory} (hs : Sound dir mem) (target : String) :
    Sound dir (resolveSlackTarget dir out target mem).2 ∧
      ∃ down, (resolveSlackTarget dir out target mem).1 = reading (dir.without down) (parseTarget target) := by
  unfold resolveSlackTarget
  cases parseTarget target with
  | empty => exact ⟨hs, fun _ => false, rfl⟩
  | channelId id => exact ⟨hs, fun _ => false, rfl⟩
  | userId id => exact ⟨hs, fun _ => false, rfl⟩
  | email address =>
    obtain ⟨fails, hfound⟩ := lookUp_cases out hs .email address
    exact ⟨(lookUp_spec out hs .email address).1, fun _ => fails, congrArg (orElse .user (.noEmail address)) hfound⟩
  | channelName name =>
    obtain ⟨fails, hfound⟩ := lookUp_cases out hs .channel name
    exact ⟨(lookUp_spec out hs .channel name).1, fun _ => fails, congrArg (orElse .channel (.noChannel name)) hfound⟩
  | userName name =>
    obtain ⟨fails, hfound⟩ := lookUp_cases out hs .user name
    exact ⟨(lookUp_spec out hs .user name).1, fun _ => fails, congrArg (orElse .user (.noUser name)) hfound⟩
  | bareName name =>
    obtain ⟨channels, hchannel⟩ := lookUp_cases out hs .channel name
    have hs' := (lookUp_spec out hs .channel name).1
    obtain ⟨users, huser⟩ := lookUp_cases out hs' .user name
    refine ⟨(lookUp_spec out hs' .user name).1, fun kind => if kind = .channel then channels else users, ?_⟩
    exact congrArg₂ (bare name) hchannel huser

/-! ## Ids and their readings -/

theorem upperOrDigit_not_space {c : Char} (h : isUpperOrDigit c = true) : isSpace c = false := by
  simp only [isUpperOrDigit, Bool.or_eq_true, Bool.and_eq_true, decide_eq_true_eq, Char.le_def,
    UInt32.le_iff_toNat_le] at h
  have hrange : 48 ≤ c.toNat ∧ c.toNat ≤ 90 := by
    rcases h with ⟨hlo, hhi⟩ | ⟨hlo, hhi⟩
    · exact ⟨le_trans (by decide) hlo, hhi⟩
    · exact ⟨hlo, le_trans hhi (by decide)⟩
  simp only [isSpace, Bool.or_eq_false_iff, Bool.and_eq_false_iff, decide_eq_false_iff_not, beq_eq_false_iff_ne]
  omega

/-- An id is all capitals and digits, and has some. -/
theorem isId_chars {first : List Char} (hfirst : ∀ c ∈ first, isUpperOrDigit c = true) {s : String}
    (h : isId first s = true) : s.toList ≠ [] ∧ ∀ c ∈ s.toList, isUpperOrDigit c = true := by
  unfold isId at h
  split at h
  · cases h
  · rename_i c rest hs
    simp only [Bool.and_eq_true, List.all_eq_true] at h
    refine ⟨by rw [hs]; exact List.cons_ne_nil _ _, fun d hd => ?_⟩
    rw [hs, List.mem_cons] at hd
    rcases hd with rfl | hd
    · exact hfirst d (List.contains_iff_mem.mp h.1.1)
    · exact h.2 d hd

theorem strip_id {first : List Char} (hfirst : ∀ c ∈ first, isUpperOrDigit c = true) {s : String}
    (h : isId first s = true) : stripString s = s ∧ s.isEmpty = false := by
  obtain ⟨hne, hchars⟩ := isId_chars hfirst h
  constructor
  · have hstrip : strip (s.toList ++ []) = s.toList := strip_append
      (fun c hc => upperOrDigit_not_space (hchars c (List.mem_of_head? hc)))
      (fun c hc => upperOrDigit_not_space (hchars c (List.mem_of_getLast? hc))) nofun
    rw [List.append_nil] at hstrip
    rw [stripString, hstrip, String.ofList_toList]
  · cases he : s.isEmpty with
    | false => rfl
    | true =>
      rw [String.isEmpty_iff] at he
      subst he
      exact absurd rfl hne

theorem conversationId_not_userId {s : String} (h : isConversationId s = true) : isUserId s = false := by
  unfold isConversationId isId at h
  unfold isUserId isId
  split at h
  · cases h
  · rename_i c rest hs
    simp only [Bool.and_eq_true, List.contains_iff_mem] at h
    have hno : ∀ c ∈ ['C', 'D', 'G'], ['U', 'W'].contains c = false := by simp
    simp only [hno c h.1.1, Bool.false_and]

theorem strip_conversationId {s : String} (h : isConversationId s = true) : stripString s = s ∧ s.isEmpty = false :=
  strip_id (by simp [isUpperOrDigit]) h

theorem strip_userId {s : String} (h : isUserId s = true) : stripString s = s ∧ s.isEmpty = false :=
  strip_id (by simp [isUpperOrDigit]) h

/-- A target that is a conversation's id, but for white space around it. -/
theorem parse_conversationId {target id : String} (hid : isConversationId id = true) (h : stripString target = id) :
    parseTarget target = .channelId id := by
  simp [parseTarget, h, hid, (strip_conversationId hid).2]

theorem parse_userId {id : String} (hid : isUserId id = true) : parseTarget id = .userId id := by
  obtain ⟨hstrip, hne⟩ := strip_userId hid
  have hno : isConversationId id = false := by
    cases hc : isConversationId id with
    | false => rfl
    | true => exact absurd hid (by rw [conversationId_not_userId hc]; decide)
  simp [parseTarget, hstrip, hne, hid, hno]

/-- The ids that a kind's targets resolve to. -/
def shapeOf : Kind → String → Bool
  | .channel => isConversationId
  | .user => isUserId

theorem without_some {down : Lookup → Bool} {kind : Lookup} {key id : String}
    (h : dir.without down kind key = some id) : dir.find kind key = some id := by
  unfold Directory.without at h
  split at h
  · cases h
  · exact h

theorem find_channel_shape {name id : String} (h : dir.find .channel name = some id) : isConversationId id = true := by
  obtain ⟨c, -, rfl⟩ := Option.map_eq_some_iff.mp h
  exact c.shape

theorem find_user_shape {name id : String} (h : dir.find .user name = some id) : isUserId id = true := by
  obtain ⟨m, -, rfl⟩ := Option.map_eq_some_iff.mp h
  exact m.shape

theorem orElse_ok {kind k : Kind} {error : Unresolved} {found : Option String} {id : String}
    (h : orElse kind error found = .ok (k, id)) : kind = k ∧ found = some id := by
  cases found with
  | none => cases h
  | some found =>
    cases h
    exact ⟨rfl, rfl⟩

theorem bare_ok {name id : String} {channel user : Option String} {kind : Kind}
    (h : bare name channel user = .ok (kind, id)) :
    kind = .channel ∧ channel = some id ∨ kind = .user ∧ user = some id := by
  cases channel with
  | none =>
    cases user with
    | none => cases h
    | some user =>
      cases h
      exact .inr ⟨rfl, rfl⟩
  | some channel =>
    cases user with
    | none =>
      cases h
      exact .inl ⟨rfl, rfl⟩
    | some user => cases h

theorem parse_channelId {target id : String} (h : parseTarget target = .channelId id) :
    stripString target = id ∧ isConversationId id = true := by
  unfold parseTarget at h
  simp only at h
  split at h
  · cases h
  · split at h
    · rename_i hid
      cases h
      exact ⟨rfl, hid⟩
    · split at h
      · cases h
      · split at h
        · cases h
        · split at h <;> cases h

theorem parse_userId_shape {target id : String} (h : parseTarget target = .userId id) :
    isUserId id = true := by
  unfold parseTarget at h
  simp only at h
  split at h
  · cases h
  · split at h
    · cases h
    · split at h
      · rename_i hid
        cases h
        exact hid
      · split at h
        · cases h
        · split at h <;> cases h

/-- What a target resolves to has the shape of its kind's ids. -/
theorem reading_shape {down : Lookup → Bool} {target id : String} {kind : Kind}
    (h : reading (dir.without down) (parseTarget target) = .ok (kind, id)) : shapeOf kind id = true := by
  cases hp : parseTarget target with
  | empty =>
    rw [hp] at h
    cases h
  | channelId raw =>
    rw [hp] at h
    cases h
    exact (parse_channelId hp).2
  | userId raw =>
    rw [hp] at h
    cases h
    exact parse_userId_shape hp
  | email address =>
    rw [hp] at h
    obtain ⟨rfl, hfound⟩ := orElse_ok h
    exact dir.byEmail_shape address id (without_some hfound)
  | channelName name =>
    rw [hp] at h
    obtain ⟨rfl, hfound⟩ := orElse_ok h
    exact find_channel_shape (without_some hfound)
  | userName name =>
    rw [hp] at h
    obtain ⟨rfl, hfound⟩ := orElse_ok h
    exact find_user_shape (without_some hfound)
  | bareName name =>
    rw [hp] at h
    rcases bare_ok h with ⟨rfl, hfound⟩ | ⟨rfl, hfound⟩
    · exact find_channel_shape (without_some hfound)
    · exact find_user_shape (without_some hfound)

/-- Whether DMs can be opened makes no difference. -/
theorem reading_congr {find find' : Lookup → String → Option String}
    (h : ∀ kind key, kind ≠ .dm → find kind key = find' kind key) (t : Target) : reading find t = reading find' t := by
  cases t <;> simp [reading, h]

/-- With every lookup down, only what is an id already resolves. -/
theorem reading_none {target id : String} {kind : Kind}
    (h : reading (dir.without fun _ => true) (parseTarget target) = .ok (kind, id)) (hid : isConversationId id = true) :
    stripString target = id := by
  cases hp : parseTarget target with
  | channelId raw =>
    rw [hp] at h
    cases h
    exact (parse_channelId hp).1
  | userId raw =>
    rw [hp] at h
    cases h
    have huser := parse_userId_shape hp
    rw [conversationId_not_userId hid] at huser
    cases huser
  | _ =>
    rw [hp] at h
    cases h

/-! ## Lists -/

theorem parse_blank {target : String} (h : (stripString target).isEmpty = true) : parseTarget target = .empty := by
  rw [parseTarget, if_pos h]

/-- Whatever fails, an id that is permitted is a reading of some entry. -/
theorem checkEntries_spec {id : String} (entries : List String) {mem : Memory} (hs : Sound dir mem) :
    Sound dir (checkEntries dir out id entries mem).2 ∧ ((checkEntries dir out id entries mem).1 = true →
      ∃ entry ∈ entries, ∃ down kind, reading (dir.without down) (parseTarget entry) = .ok (kind, id)) := by
  induction entries generalizing mem with
  | nil => exact ⟨hs, nofun⟩
  | cons entry entries ih =>
    obtain ⟨hs', down, hreading⟩ := resolve_spec out hs entry
    -- what the rest of the list gives, from any true memories
    have hrest : ∀ {mem : Memory}, Sound dir mem → Sound dir (checkEntries dir out id entries mem).2 ∧
        ((checkEntries dir out id entries mem).1 = true → ∃ e ∈ entry :: entries, ∃ down kind,
          reading (dir.without down) (parseTarget e) = .ok (kind, id)) := fun hs => by
      refine ⟨(ih hs).1, fun h => ?_⟩
      obtain ⟨e, he, hfound⟩ := (ih hs).2 h
      exact ⟨e, List.mem_cons_of_mem _ he, hfound⟩
    unfold checkEntries
    split
    · exact hrest hs
    · split
      · rename_i kind found mem' hres
        rw [hres] at hs' hreading
        split
        · rename_i heq
          subst heq
          exact ⟨hs', fun _ => ⟨entry, List.mem_cons_self, down, kind, hreading.symm⟩⟩
        · exact hrest hs'
      · rename_i error mem' hres
        rw [hres] at hs'
        exact hrest hs'

/-- With some kinds down, the readings without them are what is permitted. -/
theorem checkEntries_down {id : String} {down : Lookup → Bool} (hf : ∀ n kind key, out.fails n kind key = down kind)
    (entries : List String) {mem : Memory} (hd : Down dir down mem) :
    (checkEntries dir out id entries mem).1 = true ↔
      ∃ entry ∈ entries, ∃ kind, reading (dir.without down) (parseTarget entry) = .ok (kind, id) := by
  induction entries generalizing mem with
  | nil => simp [checkEntries]
  | cons entry entries ih =>
    obtain ⟨hreading, hd'⟩ := resolve_down hf hd entry
    rw [List.exists_mem_cons_iff]
    unfold checkEntries
    split
    · rename_i hblank
      rw [ih hd, parse_blank hblank]
      exact (or_iff_right nofun).symm
    · split
      · rename_i kind found mem' hres
        rw [hres] at hreading hd'
        rw [← hreading]
        split
        · rename_i heq
          subst heq
          exact iff_of_true rfl (.inl ⟨kind, rfl⟩)
        · rename_i hne
          rw [ih hd']
          refine (or_iff_right ?_).symm
          rintro ⟨k, hk⟩
          cases hk
          exact hne rfl
      · rename_i error mem' hres
        rw [hres] at hreading hd'
        rw [ih hd', ← hreading]
        exact (or_iff_right nofun).symm

/-- A conversation that is listed by its id is permitted, whatever fails. -/
theorem checkEntries_literal {id : String} (hid : isConversationId id = true) {entries : List String}
    (h : ∃ entry ∈ entries, stripString entry = id) (mem : Memory) : (checkEntries dir out id entries mem).1 = true := by
  induction entries generalizing mem with
  | nil =>
    obtain ⟨_, hmem, _⟩ := h
    cases hmem
  | cons entry entries ih =>
    obtain ⟨e, he, hstrip⟩ := h
    rcases List.mem_cons.mp he with rfl | he
    · have hres : resolveSlackTarget dir out e mem = (.ok (.channel, id), mem) := by
        rw [resolveSlackTarget, parse_conversationId hid hstrip]
      unfold checkEntries
      rw [if_neg (by rw [hstrip, (strip_conversationId hid).2]; decide), hres]
      exact congrArg Prod.fst (if_pos rfl)
    · have hrest := ih ⟨e, he, hstrip⟩
      unfold checkEntries
      split
      · exact hrest mem
      · split
        · split
          · rfl
          · exact hrest _
        · exact hrest _

end Readings

end Errand.Server.SlackTargets

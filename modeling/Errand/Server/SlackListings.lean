import Errand.Lib.Pages
import Errand.Server.SlackTargets

/-
  Errand.Server.SlackListings — whether a name is looked up in all of a workspace
  (`resolve_slack_target`, `_resolve_channel_by_name`, `_resolve_user_by_username`,
  errand/platforms/slack/identity.py).

  Channels and members are listed page by page, and any request may fail. A lookup ends at
  the first entry of the name and answers nothing both where there is none and where a
  request failed; only the former is remembered.

  Proved:
  - `remembered_sound`: whatever was looked up or evicted before, the memories are the directory's.
  - `lookUp_down`, `lookUp_up`: a lookup answers nothing if a request it needs fails, and the
    first entry of the whole listing otherwise.
  - `unambiguous_iff`: when a name resolves only if it is that of exactly one channel or user
    and no lookup failed.
  - `the_first_of_a_name`: two users with one display name, of whom the first is picked.
-/

namespace Errand.Server.SlackListings

open Errand.Lib Errand.Lib.Pages Errand.Server.SlackTargets

deriving instance DecidableEq for Target

/-- A directory, and the pages its listings come in. -/
structure Workspace where
  directory : Directory
  channelPages : List (List Channel)
  memberPages : List (List Member)
  channels_eq : channelPages.flatten = directory.channels
  members_eq : memberPages.flatten = directory.members
  channels_ne : channelPages ≠ []
  members_ne : memberPages ≠ []

def isChannel (name : String) (c : Channel) : Bool := c.name == name

def isMember (username : String) (m : Member) : Bool :=
  !m.deleted && (m.name == username || m.displayName == username)

section Lookups

variable (ws : Workspace) (out : Outside)

/-- A lookup in a listing. -/
def lookUpListed {α : Type} (kind : Lookup) (p : α → Bool) (id : α → String) (pages : List (List α)) (key : String)
    (mem : Memory) : Option String × Memory :=
  match cacheGet (out.now mem.requests) (mem.caches kind) key with
  | (some value, cache) => (value, { mem with caches := Function.update mem.caches kind cache })
  | (none, cache) =>
    match scan p (fun n => out.fails n kind key) mem.requests pages with
    | (none, next) => (none, { caches := Function.update mem.caches kind cache, requests := next })
    | (some found, next) =>
      (found.map id, {
        caches := Function.update mem.caches kind (Dict.set cache key (found.map id, out.now (next - 1)))
        requests := next })

def resolveChannelByName (name : String) (mem : Memory) : Option String × Memory :=
  lookUpListed out .channel (isChannel name) Channel.id ws.channelPages name mem

def resolveUserByUsername (username : String) (mem : Memory) : Option String × Memory :=
  lookUpListed out .user (isMember username) Member.id ws.memberPages username mem

def resolveSlackTarget (target : String) (mem : Memory) : Except Unresolved (Kind × String) × Memory :=
  match parseTarget target with
  | .empty => (.error .empty, mem)
  | .channelId id => (.ok (.channel, id), mem)
  | .userId id => (.ok (.user, id), mem)
  | .email address =>
    let (found, mem) := resolveUserByEmail ws.directory out address mem
    (orElse .user (.noEmail address) found, mem)
  | .channelName name =>
    let (found, mem) := resolveChannelByName ws out name mem
    (orElse .channel (.noChannel name) found, mem)
  | .userName name =>
    let (found, mem) := resolveUserByUsername ws out name mem
    (orElse .user (.noUser name) found, mem)
  | .bareName name =>
    let (channel, mem) := resolveChannelByName ws out name mem
    let (user, mem) := resolveUserByUsername ws out name mem
    (bare name channel user, mem)

/-- `evict_channel_cache_entry`. -/
def evictChannelCacheEntry (text : String) (mem : Memory) : Memory :=
  let cache := Dict.pop (mem.caches .channel) text
  let cache := Dict.pop cache (String.ofList (text.toList.dropWhile (· = '#')))
  let stale := (cache.filter fun item => item.2.1 = some text).map Prod.fst
  { mem with caches := Function.update mem.caches .channel (stale.foldl Dict.pop cache) }

/-- What came before. -/
inductive Earlier where
  | resolved (target : String)
  | evicted (text : String)

def remember (mem : Memory) : Earlier → Memory
  | .resolved target => (resolveSlackTarget ws out target mem).2
  | .evicted text => evictChannelCacheEntry text mem

/-- The memories after what came before. -/
def remembered (history : List Earlier) : Memory := history.foldl (remember ws out) ⟨fun _ => [], 0⟩

/-! ## What a name denotes -/

/-- The channels and users a name is that of. -/
def matching : Target → List (Kind × String)
  | .channelName name => (ws.directory.channels.filter (isChannel name)).map fun c => (.channel, c.id)
  | .userName name => (ws.directory.members.filter (isMember name)).map fun m => (.user, m.id)
  | .bareName name =>
    (ws.directory.channels.filter (isChannel name)).map (fun c => (.channel, c.id)) ++
      (ws.directory.members.filter (isMember name)).map fun m => (.user, m.id)
  | _ => []

/-- Not an id and not an e-mail address. -/
inductive IsName : Target → Prop where
  | channelName (name : String) : IsName (.channelName name)
  | userName (name : String) : IsName (.userName name)
  | bareName (name : String) : IsName (.bareName name)

/-- A lookup that is not remembered, and of whose requests one fails in front of what it seeks. -/
def Down {α : Type} (kind : Lookup) (p : α → Bool) (pages : List (List α)) (key : String) (mem : Memory) : Prop :=
  (cacheGet (out.now mem.requests) (mem.caches kind) key).1 = none ∧
    Interrupted p (fun n => out.fails n kind key) mem.requests pages

def ChannelsDown (name : String) (mem : Memory) : Prop :=
  Down out .channel (isChannel name) ws.channelPages name mem

def UsersDown (name : String) (mem : Memory) : Prop := Down out .user (isMember name) ws.memberPages name mem

/-- The memories when a bare name's users are looked up. -/
def between (name : String) (mem : Memory) : Memory := (resolveChannelByName ws out name mem).2

/-- One of the lookups a name needs fails. -/
def Failed (mem : Memory) : Target → Prop
  | .channelName name => ChannelsDown ws out name mem
  | .userName name => UsersDown ws out name mem
  | .bareName name => ChannelsDown ws out name mem ∨ UsersDown ws out name (between ws out name mem)
  | _ => False

/-- What a target that is a name may resolve to. -/
structure Unambiguous (matching : List (Kind × String)) (failed : Prop) (result : Except Unresolved (Kind × String)) :
    Prop where
  one : ∀ r, result = .ok r → r ∈ matching ∧ ∀ m ∈ matching, m = r
  several : (∃ m ∈ matching, ∃ m' ∈ matching, m ≠ m') → ∃ e, result = .error e
  failed : failed → ∃ e, result = .error e

/-- No two. -/
def AtMostOne {α : Type} (l : List α) : Prop := ∀ a ∈ l, ∀ b ∈ l, a = b

/-- A prefixed name that its lookup does not find, or that is of one at most; a bare name whose
    lookups both fail, or of which the one that does not finds nothing, or that is both a
    channel's and a user's, or of one at most. -/
def Settled (mem : Memory) : Target → Prop
  | .channelName name => ChannelsDown ws out name mem ∨ AtMostOne (matching ws (.channelName name))
  | .userName name => UsersDown ws out name mem ∨ AtMostOne (matching ws (.userName name))
  | .bareName name =>
    (ChannelsDown ws out name mem →
      UsersDown ws out name (between ws out name mem) ∨ matching ws (.userName name) = []) ∧
    (UsersDown ws out name (between ws out name mem) →
      ChannelsDown ws out name mem ∨ matching ws (.channelName name) = []) ∧
    (¬ Failed ws out mem (.bareName name) →
      matching ws (.channelName name) ≠ [] ∧ matching ws (.userName name) ≠ [] ∨
        AtMostOne (matching ws (.bareName name)))
  | _ => True

end Lookups

section Facts

variable {ws : Workspace} {out : Outside}

/-! ## Memories -/

theorem find_channel (name : String) :
    ws.directory.find .channel name = (ws.channelPages.flatten.find? (isChannel name)).map Channel.id := by
  rw [ws.channels_eq]
  rfl

theorem find_user (username : String) :
    ws.directory.find .user username = (ws.memberPages.flatten.find? (isMember username)).map Member.id := by
  rw [ws.members_eq]
  rfl

section Listed

variable {α : Type} {kind : Lookup} {p : α → Bool} {id : α → String} {pages : List (List α)} {key : String} {mem : Memory}

theorem lookUp_down (h : Down out kind p pages key mem) : (lookUpListed out kind p id pages key mem).1 = none := by
  obtain ⟨hmiss, hfail⟩ := h
  have hscan := scan_interrupted hfail
  unfold lookUpListed
  split
  · rename_i value cache hget
    rw [hget] at hmiss
    cases hmiss
  · split
    · rfl
    · rename_i found next heq
      rw [heq] at hscan
      cases hscan

theorem lookUp_up (hs : Sound ws.directory mem) (hfind : ws.directory.find kind key = (pages.flatten.find? p).map id)
    (h : ¬ Down out kind p pages key mem) :
    (lookUpListed out kind p id pages key mem).1 = (pages.flatten.find? p).map id := by
  unfold lookUpListed
  split
  · rename_i value cache hget
    obtain ⟨time, htime⟩ := cacheGet_hit (congrArg Prod.fst hget)
    rw [← hfind]
    exact hs kind key value time htime
  · rename_i cache hget
    have hscan := scan_found fun hfail => h ⟨congrArg Prod.fst hget, hfail⟩
    split
    · rename_i next heq
      rw [heq] at hscan
      cases hscan
    · rename_i found next heq
      rw [heq] at hscan
      rw [Option.some.inj hscan]

theorem lookUp_sound (out : Outside) (hs : Sound ws.directory mem)
    (hfind : ws.directory.find kind key = (pages.flatten.find? p).map id) :
    Sound ws.directory (lookUpListed out kind p id pages key mem).2 := by
  have hread : ∀ k value time, Dict.get? (cacheGet (out.now mem.requests) (mem.caches kind) key).2 k =
      some (value, time) → value = ws.directory.find kind k := fun k value time h =>
    hs kind k value time (cacheGet_keeps h)
  unfold lookUpListed
  split
  · rename_i value cache hget
    rw [hget] at hread
    exact sound_update hs _ hread
  · rename_i cache hget
    rw [hget] at hread
    split
    · exact sound_update hs _ hread
    · rename_i found next heq
      refine sound_update hs _ fun k value time h => ?_
      rcases Dict.get?_set_cases h with ⟨rfl, hvalue⟩ | ⟨-, h⟩
      · -- what is remembered is what the search found
        have hclear : ¬ Interrupted p (fun n => out.fails n kind key) mem.requests pages := by
          intro hfail
          have hnone := scan_interrupted hfail
          rw [heq] at hnone
          cases hnone
        have hfound := scan_found hclear
        rw [heq] at hfound
        cases hvalue
        rw [hfind, Option.some.inj hfound]
      · exact hread k value time h

end Listed

theorem resolve_sound (out : Outside) {mem : Memory} (hs : Sound ws.directory mem) (target : String) :
    Sound ws.directory (resolveSlackTarget ws out target mem).2 := by
  unfold resolveSlackTarget
  cases parseTarget target with
  | empty => exact hs
  | channelId id => exact hs
  | userId id => exact hs
  | email address => exact (lookUp_spec out hs .email address).1
  | channelName name => exact lookUp_sound out hs (find_channel name)
  | userName name => exact lookUp_sound out hs (find_user name)
  | bareName name => exact lookUp_sound out (lookUp_sound out hs (find_channel name)) (find_user name)

theorem get?_pops {cache : Cache} {keys : List String} {k : String} {item : Option String × Nat}
    (h : Dict.get? (keys.foldl Dict.pop cache) k = some item) : Dict.get? cache k = some item := by
  induction keys generalizing cache with
  | nil => exact h
  | cons key keys ih => exact (Dict.get?_pop_some (ih h)).2

theorem evict_sound {mem : Memory} (hs : Sound ws.directory mem) (text : String) :
    Sound ws.directory (evictChannelCacheEntry text mem) := by
  refine sound_update hs _ fun k value time h => ?_
  exact hs .channel k value time (Dict.get?_pop_some (Dict.get?_pop_some (get?_pops h)).2).2

theorem remembered_sound (ws : Workspace) (out : Outside) (history : List Earlier) :
    Sound ws.directory (remembered ws out history) := by
  unfold remembered
  have hstart : Sound ws.directory ⟨fun _ => [], 0⟩ := fun kind key value time h => nomatch h
  revert hstart
  generalize (⟨fun _ => [], 0⟩ : Memory) = mem
  intro hs
  induction history generalizing mem with
  | nil => exact hs
  | cons e history ih =>
    refine ih _ ?_
    cases e with
    | resolved target => exact resolve_sound out hs target
    | evicted text => exact evict_sound hs text

/-! ## Answers -/

variable {mem : Memory}

theorem channel_down {name : String} (h : ChannelsDown ws out name mem) : (resolveChannelByName ws out name mem).1 = none :=
  lookUp_down h

theorem user_down {name : String} (h : UsersDown ws out name mem) : (resolveUserByUsername ws out name mem).1 = none :=
  lookUp_down h

/-- A channel lookup that does not fail answers the first of the name. -/
theorem channel_up (hs : Sound ws.directory mem) {name : String} (h : ¬ ChannelsDown ws out name mem) :
    (resolveChannelByName ws out name mem).1.map (Kind.channel, ·) = (matching ws (.channelName name)).head? := by
  rw [resolveChannelByName, lookUp_up hs (find_channel name) h, ws.channels_eq, matching, List.head?_map,
    List.head?_filter, Option.map_map]
  rfl

theorem user_up (hs : Sound ws.directory mem) {name : String} (h : ¬ UsersDown ws out name mem) :
    (resolveUserByUsername ws out name mem).1.map (Kind.user, ·) = (matching ws (.userName name)).head? := by
  rw [resolveUserByUsername, lookUp_up hs (find_user name) h, ws.members_eq, matching, List.head?_map,
    List.head?_filter, Option.map_map]
  rfl

theorem matching_bare (ws : Workspace) (name : String) :
    matching ws (.bareName name) = matching ws (.channelName name) ++ matching ws (.userName name) := rfl

/-- An error is always permitted. -/
theorem unambiguous_error {l : List (Kind × String)} {failed : Prop} (e : Unresolved) :
    Unambiguous l failed (.error e) := ⟨nofun, fun _ => ⟨e, rfl⟩, fun _ => ⟨e, rfl⟩⟩

theorem unambiguous_ok {l : List (Kind × String)} {failed : Prop} {r : Kind × String} (hr : r ∈ l) :
    Unambiguous l failed (.ok r) ↔ ¬ failed ∧ AtMostOne l := by
  constructor
  · intro h
    refine ⟨fun hfailed => ?_, fun a ha b hb => ?_⟩
    · obtain ⟨e, he⟩ := h.failed hfailed
      cases he
    · rw [(h.one r rfl).2 a ha, (h.one r rfl).2 b hb]
  · rintro ⟨hup, hone⟩
    refine ⟨?_, ?_, fun hfailed => absurd hfailed hup⟩
    · intro r' hr'
      cases hr'
      exact ⟨hr, fun m hm => hone m hm r hr⟩
    · rintro ⟨m, hm, m', hm', hne⟩
      exact absurd (hone m hm m' hm') hne

/-! ## Names -/

/-- A lookup's answer: nothing, as it failed or there is nothing, or one of the matches. -/
theorem answer_cases {l : List (Kind × String)} {down : Prop} {kind : Kind} {found : Option String}
    (hdown : down → found = none) (hup : ¬ down → found.map (kind, ·) = l.head?) :
    (found = none ∧ (down ∨ l = [])) ∨ ∃ id, found = some id ∧ ¬ down ∧ (kind, id) ∈ l := by
  by_cases h : down
  · exact .inl ⟨hdown h, .inl h⟩
  · have hfound := hup h
    cases found with
    | none => exact .inl ⟨rfl, .inr (List.head?_eq_none_iff.mp hfound.symm)⟩
    | some id => exact .inr ⟨id, rfl, h, List.mem_of_head? hfound.symm⟩

theorem atMostOne_nil {α : Type} : AtMostOne ([] : List α) := nofun

/-- A prefixed name. -/
theorem orElse_iff {l : List (Kind × String)} {down : Prop} {kind : Kind} (error : Unresolved) {found : Option String}
    (hdown : down → found = none) (hup : ¬ down → found.map (kind, ·) = l.head?) :
    Unambiguous l down (orElse kind error found) ↔ down ∨ AtMostOne l := by
  rcases answer_cases hdown hup with ⟨rfl, h⟩ | ⟨id, rfl, hup, hmem⟩
  · refine ⟨fun _ => h.imp_right ?_, fun _ => unambiguous_error error⟩
    rintro rfl
    exact atMostOne_nil
  · rw [orElse, unambiguous_ok hmem]
    exact ⟨fun hok => .inr hok.2, fun hor => ⟨hup, hor.resolve_left hup⟩⟩

/-- A bare name. -/
theorem bare_iff {cs us : List (Kind × String)} {cdown udown : Prop} (name : String) {channel user : Option String}
    (hcd : cdown → channel = none) (hcu : ¬ cdown → channel.map (Kind.channel, ·) = cs.head?)
    (hud : udown → user = none) (huu : ¬ udown → user.map (Kind.user, ·) = us.head?) :
    Unambiguous (cs ++ us) (cdown ∨ udown) (bare name channel user) ↔
      (cdown → udown ∨ us = []) ∧ (udown → cdown ∨ cs = []) ∧
        (¬ (cdown ∨ udown) → cs ≠ [] ∧ us ≠ [] ∨ AtMostOne (cs ++ us)) := by
  rcases answer_cases hcd hcu with ⟨rfl, hc⟩ | ⟨c, rfl, hcup, hcmem⟩ <;>
    rcases answer_cases hud huu with ⟨rfl, hu⟩ | ⟨u, rfl, huup, humem⟩
  · refine ⟨fun _ => ⟨fun _ => hu, fun _ => hc, fun hup => .inr ?_⟩, fun _ => unambiguous_error _⟩
    rw [not_or] at hup
    rw [hc.resolve_left hup.1, hu.resolve_left hup.2]
    exact atMostOne_nil
  · rw [bare, unambiguous_ok (List.mem_append_right cs humem)]
    have hne : us ≠ [] := List.ne_nil_of_mem humem
    constructor
    · rintro ⟨hup, hone⟩
      rw [not_or] at hup
      exact ⟨fun h => absurd h hup.1, fun h => absurd h hup.2, fun _ => .inr hone⟩
    · rintro ⟨hcdown, -, hone⟩
      have hcup : ¬ cdown := fun h => (hcdown h).elim huup hne
      have hup : ¬ (cdown ∨ udown) := not_or.mpr ⟨hcup, huup⟩
      exact ⟨hup, (hone hup).resolve_left fun h => h.1 (hc.resolve_left hcup)⟩
  · rw [bare, unambiguous_ok (List.mem_append_left us hcmem)]
    have hne : cs ≠ [] := List.ne_nil_of_mem hcmem
    constructor
    · rintro ⟨hup, hone⟩
      rw [not_or] at hup
      exact ⟨fun h => absurd h hup.1, fun h => absurd h hup.2, fun _ => .inr hone⟩
    · rintro ⟨-, hudown, hone⟩
      have huup : ¬ udown := fun h => (hudown h).elim hcup hne
      have hup : ¬ (cdown ∨ udown) := not_or.mpr ⟨hcup, huup⟩
      exact ⟨hup, (hone hup).resolve_left fun h => h.2 (hu.resolve_left huup)⟩
  · refine ⟨fun _ => ⟨fun h => absurd h hcup, fun h => absurd h huup, fun _ => .inl ?_⟩, fun _ => unambiguous_error _⟩
    exact ⟨List.ne_nil_of_mem hcmem, List.ne_nil_of_mem humem⟩

theorem resolve_iff (hs : Sound ws.directory mem) {target : String} (hname : IsName (parseTarget target)) :
    Unambiguous (matching ws (parseTarget target)) (Failed ws out mem (parseTarget target))
        (resolveSlackTarget ws out target mem).1 ↔
      Settled ws out mem (parseTarget target) := by
  unfold resolveSlackTarget
  cases hparse : parseTarget target with
  | channelName name => exact orElse_iff (.noChannel name) channel_down (channel_up hs)
  | userName name => exact orElse_iff (.noUser name) user_down (user_up hs)
  | bareName name =>
    have hs' : Sound ws.directory (between ws out name mem) := lookUp_sound out hs (find_channel name)
    rw [matching_bare]
    exact bare_iff name channel_down (channel_up hs) user_down (user_up hs')
  | empty =>
    rw [hparse] at hname
    cases hname
  | channelId id =>
    rw [hparse] at hname
    cases hname
  | userId id =>
    rw [hparse] at hname
    cases hname
  | email address =>
    rw [hparse] at hname
    cases hname

end Facts

/-! ## Every directory, split, failure and history -/

/-- A name resolves only if it is unambiguous and no lookup failed, exactly where it settles. -/
theorem unambiguous_iff (ws : Workspace) (out : Outside) (history : List Earlier) (target : String)
    (hname : IsName (parseTarget target)) :
    Unambiguous (matching ws (parseTarget target)) (Failed ws out (remembered ws out history) (parseTarget target))
        (resolveSlackTarget ws out target (remembered ws out history)).1 ↔
      Settled ws out (remembered ws out history) (parseTarget target) :=
  resolve_iff (remembered_sound ws out history) hname

def hill : Member := ⟨"U11111111", "sam.hill", "Sam", false, by decide⟩

def lake : Member := ⟨"U22222222", "sam.lake", "Sam", false, by decide⟩

/-- Two users who are shown as Sam, on two pages. -/
def sams : Workspace where
  directory := {
    channels := []
    members := [hill, lake]
    byEmail := fun _ => none
    openDm := fun _ => none
    partner := fun _ => none
    byEmail_shape := nofun
    openDm_shape := nofun
    openDm_partner := nofun }
  channelPages := [[]]
  memberPages := [[hill], [lake]]
  channels_eq := rfl
  members_eq := rfl
  channels_ne := List.cons_ne_nil _ _
  members_ne := List.cons_ne_nil _ _

def calm : Outside := ⟨fun _ => 0, fun _ _ _ => false⟩

theorem parse_sam : parseTarget "@Sam" = .userName "Sam" := by decide

theorem parse_sam_lake : parseTarget "@sam.lake" = .userName "sam.lake" := by decide

theorem calm_up (name : String) (mem : Memory) : ¬ UsersDown sams calm name mem := by
  rintro ⟨-, i, -, hfail, -⟩
  cases hfail

/-- The username of one of them is nobody else's. -/
theorem a_username_resolves :
    Unambiguous (matching sams (parseTarget "@sam.lake")) (Failed sams calm (remembered sams calm []) (parseTarget "@sam.lake"))
      (resolveSlackTarget sams calm "@sam.lake" (remembered sams calm [])).1 := by
  refine (unambiguous_iff sams calm [] "@sam.lake" (by rw [parse_sam_lake]; exact .userName _)).mpr ?_
  rw [parse_sam_lake]
  have hone : matching sams (.userName "sam.lake") = [(.user, "U22222222")] := by decide
  refine .inr fun a ha b hb => ?_
  rw [hone, List.mem_singleton] at ha hb
  rw [ha, hb]

/-- The first of the two is who `@Sam` is. -/
theorem the_first_of_a_name :
    IsName (parseTarget "@Sam") ∧
      (resolveSlackTarget sams calm "@Sam" (remembered sams calm [])).1.toOption = some (.user, "U11111111") ∧
      ¬ Unambiguous (matching sams (parseTarget "@Sam")) (Failed sams calm (remembered sams calm []) (parseTarget "@Sam"))
        (resolveSlackTarget sams calm "@Sam" (remembered sams calm [])).1 := by
  refine ⟨by rw [parse_sam]; exact .userName _, by decide, fun h => ?_⟩
  rw [resolve_iff (remembered_sound sams calm []) (by rw [parse_sam]; exact .userName _), parse_sam] at h
  have htwo : matching sams (.userName "Sam") = [(.user, "U11111111"), (.user, "U22222222")] := by decide
  rcases h with hdown | hone
  · exact calm_up _ _ hdown
  · have heq := hone (.user, "U11111111") (by rw [htwo]; simp) (.user, "U22222222") (by rw [htwo]; simp)
    simp at heq

end Errand.Server.SlackListings

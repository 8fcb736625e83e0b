import Errand.Lib.Json
import Errand.Lib.PyStr
import Mathlib.Logic.Relation

/-
  Errand.Server.UrlGuard — the guard of the URL-fetching tools, errand/url_guard.py:
  `validate_url`, and `fetch_validated`, which walks a chain of redirects and validates every
  URL before it is asked for.

  What URLs are, `httpx` says (`Library`), and what addresses are, `ipaddress`; of `httpx.URL`
  only that the text of a URL is read as one with the same scheme, host and port. What a lookup
  of a host answers at each hop, and what the server does, is open (`World`).

  Proved:
  - `validateUrl_permitted`: a URL that passes is http or https, and its host is allowlisted or
    all its addresses are global.
  - `validateUrl_escapes_iff`: which exceptions of the resolver and of `ipaddress` pass through.
  - `guarded_iff`: of a fetch, every request is permitted, there are not too many, and whatever
    is declined is reported as such, exactly if the URL can be read, there is a first hop, and at
    no hop a lookup raises anything but an OSError or a Location cannot be joined.
  - `a_malformed_url_escapes`.
-/

namespace Errand.Server.UrlGuard

open Errand.Lib Errand.Lib.PyStr

/-! ## What the guard is built on -/

structure Library (Url Ip : Type) where
  /-- `httpx.URL(text)`, or what it raises. -/
  parse : String → Except String Url
  str : Url → String
  scheme : Url → String
  host : Url → String
  port : Url → Option Nat
  join : Url → String → Except String Url
  /-- A URL's text is read as that URL, as far as the guard looks. -/
  reparse : ∀ u v, parse (str u) = .ok v → scheme v = scheme u ∧ host v = host u ∧ port v = port u
  lower : String → String
  ipAddress : String → Except String Ip
  ipStr : Ip → String
  isGlobal : Ip → Bool
  isLoopback : Ip → Bool
  isLinkLocal : Ip → Bool
  isPrivate : Ip → Bool

inductive ResolveError where
  | osError (text : String)
  /-- As a UnicodeError of a label that is too long. -/
  | other (text : String)

structure Response where
  status : Nat
  location : Option String
  body : String
  deriving DecidableEq

/-- What lookups and requests answer, at each hop. -/
structure World (Url : Type) where
  resolve : Nat → String → Nat → Except ResolveError (List String)
  respond : Nat → Url → Except String Response

inductive Raised where
  | urlNotPermitted (text : String)
  | tooManyRedirects (text : String)
  /-- Of a request that was sent. -/
  | requestError (text : String)
  | other (text : String)
  deriving DecidableEq

def allowedSchemes : List String := ["http", "https"]

def redirectStatuses : List Nat := [301, 302, 303, 307, 308]

variable {Url Ip : Type} (lib : Library Url Ip) (allowlist : Option (List Json))

/-! ## validate_url -/

/-- `_normalise_allowlist`. -/
def normaliseAllowlist : List String :=
  (allowlist.getD []).filterMap fun
    | .str h => if stripString h = "" then none else some (lib.lower (stripString h))
    | _ => none

/-- `_describe`. -/
def describe (ip : Ip) : String :=
  if lib.isLoopback ip then "loopback"
  else if lib.isLinkLocal ip then "link-local"
  else if lib.isPrivate ip then "private"
  else "non-routable"

/-- `raw.split("%")[0]`. -/
def unscoped (raw : String) : String := String.ofList (raw.toList.takeWhile (· ≠ '%'))

def checkAddresses (host : String) : List String → Except Raised Unit
  | [] => .ok ()
  | raw :: addresses =>
    match lib.ipAddress (unscoped raw) with
    | .error e => .error (.other e)
    | .ok ip =>
      if lib.isGlobal ip then checkAddresses host addresses
      else .error (.urlNotPermitted ("Host '" ++ host ++ "' resolves to " ++ describe lib ip ++ " address " ++
        lib.ipStr ip ++ ", which is not permitted. Add the host to the 'url_fetch_allowlist' setting if this is deliberate."))

/-- `parsed.port or (443 if scheme == "https" else 80)`. -/
def portOf (url : Url) : Nat :=
  match lib.port url with
  | some (n + 1) => n + 1
  | _ => if lib.lower (lib.scheme url) = "https" then 443 else 80

def validateUrl (resolve : String → Nat → Except ResolveError (List String)) (url : String) : Except Raised Unit :=
  match lib.parse url with
  | .error _ => .error (.urlNotPermitted ("Malformed URL: " ++ url))
  | .ok parsed =>
    let scheme := lib.lower (lib.scheme parsed)
    if scheme ∉ allowedSchemes then
      .error (.urlNotPermitted ("Scheme '" ++ (if scheme = "" then "none" else scheme) ++
        "' is not permitted; only http and https are fetched"))
    else
      let host := lib.host parsed
      if host = "" then .error (.urlNotPermitted ("URL has no host: " ++ url))
      else if lib.lower host ∈ normaliseAllowlist lib allowlist then .ok ()
      else
        match resolve host (portOf lib parsed) with
        | .error (.osError e) => .error (.urlNotPermitted ("Could not resolve host '" ++ host ++ "': " ++ e))
        | .error (.other e) => .error (.other e)
        | .ok [] => .error (.urlNotPermitted ("Host '" ++ host ++ "' resolved to no addresses"))
        | .ok addresses => checkAddresses lib host addresses

/-! ## fetch_validated -/

/-- The requests that were sent, by hop, and what came of them. -/
structure Fetched (Url : Type) where
  requests : List (Nat × Url)
  outcome : Except Raised Response

def Fetched.behind (request : Nat × Url) (rest : Fetched Url) : Fetched Url := { rest with requests := request :: rest.requests }

/-- The loop, with so many hops to go, and what is raised behind it. -/
def follow (w : World Url) (behind : Raised) : Nat → Nat → Url → Fetched Url
  | 0, _, _ => ⟨[], .error behind⟩
  | hops + 1, i, current =>
    match validateUrl lib allowlist (w.resolve i) (lib.str current) with
    | .error e => ⟨[], .error e⟩
    | .ok () =>
      match w.respond i current with
      | .error e => ⟨[(i, current)], .error (.requestError e)⟩
      | .ok resp =>
        if resp.status ∉ redirectStatuses then ⟨[(i, current)], .ok resp⟩
        else
          match resp.location.filter (· ≠ "") with
          | none => ⟨[(i, current)], .ok resp⟩
          | some location =>
            match lib.join current location with
            | .error e => ⟨[(i, current)], .error (.other e)⟩
            | .ok next => (follow w behind hops (i + 1) next).behind (i, current)

/-- `fetch_validated`; behind no hop at all there is no `resp` to name. -/
def fetchValidated (w : World Url) (url : String) (maxRedirects : Int) : Fetched Url :=
  match lib.parse url with
  | .error e => ⟨[], .error (.other e)⟩
  | .ok current =>
    let behind := if maxRedirects + 1 ≤ 0 then .other "cannot access local variable 'resp' where it is not associated with a value"
      else .tooManyRedirects ("Exceeded " ++ toString maxRedirects ++ " redirects fetching " ++ url)
    follow lib allowlist w behind (maxRedirects + 1).toNat 0 current

/-! ## What a fetch is to be -/

def globalAddress (raw : String) : Bool :=
  match lib.ipAddress (unscoped raw) with
  | .ok ip => lib.isGlobal ip
  | .error _ => false

/-- A request to a URL that the lookup at its hop permits. -/
structure Permitted (w : World Url) (request : Nat × Url) : Prop where
  scheme : lib.lower (lib.scheme request.2) ∈ allowedSchemes
  host : lib.lower (lib.host request.2) ∈ normaliseAllowlist lib allowlist ∨
    ∃ addresses, w.resolve request.1 (lib.host request.2) (portOf lib request.2) = .ok addresses ∧ addresses ≠ [] ∧
      ∀ raw ∈ addresses, globalAddress lib raw = true

structure Guarded (w : World Url) (maxRedirects : Int) (f : Fetched Url) : Prop where
  permitted : ∀ request ∈ f.requests, Permitted lib allowlist w request
  bounded : f.requests.length ≤ (maxRedirects + 1).toNat
  /-- What is declined is reported as UrlNotPermitted or as too many redirects. -/
  reported : ∀ text, f.outcome ≠ .error (.other text)

/-! ## When it is -/

/-- The host and the port that are looked up of a URL. -/
def lookedUp (parsed : Url) : Option (String × Nat) :=
  if lib.lower (lib.scheme parsed) ∉ allowedSchemes ∨ lib.host parsed = "" ∨
    lib.lower (lib.host parsed) ∈ normaliseAllowlist lib allowlist then none
  else some (lib.host parsed, portOf lib parsed)

/-- The lookup raises no other exception, and the first address that is not global is one. -/
def Resolves : Except ResolveError (List String) → Prop
  | .error (.osError _) => True
  | .error (.other _) => False
  | .ok addresses => ∀ raw, addresses.find? (fun raw => !globalAddress lib raw) = some raw →
      ∃ ip, lib.ipAddress (unscoped raw) = .ok ip

/-- The lookup for a URL, if there is one, resolves. -/
def Reads (resolve : String → Nat → Except ResolveError (List String)) (url : String) : Prop :=
  ∀ parsed host port, lib.parse url = .ok parsed → lookedUp lib allowlist parsed = some (host, port) →
    Resolves lib (resolve host port)

/-- Where the server sends the fetch on to, of a URL that passes. -/
def redirect (w : World Url) (i : Nat) (current : Url) : Option String :=
  match validateUrl lib allowlist (w.resolve i) (lib.str current), w.respond i current with
  | .ok (), .ok resp => if resp.status ∉ redirectStatuses then none else resp.location.filter (· ≠ "")
  | _, _ => none

/-- From a hop to the next. -/
def Follows (w : World Url) (hop next : Nat × Url) : Prop :=
  next.1 = hop.1 + 1 ∧ ∃ location, redirect lib allowlist w hop.1 hop.2 = some location ∧
    lib.join hop.2 location = .ok next.2

/-- At a hop, the lookup reads and the Location joins. -/
structure Clear (w : World Url) (hop : Nat × Url) : Prop where
  reads : Reads lib allowlist (w.resolve hop.1) (lib.str hop.2)
  joins : ∀ location, redirect lib allowlist w hop.1 hop.2 = some location → ∃ next, lib.join hop.2 location = .ok next

/-! ## What passes -/

theorem checkAddresses_ok {host : String} {addresses : List String} (h : checkAddresses lib host addresses = .ok ()) :
    ∀ raw ∈ addresses, globalAddress lib raw = true := by
  induction addresses with
  | nil => exact nofun
  | cons raw addresses ih =>
    rw [checkAddresses] at h
    cases hip : lib.ipAddress (unscoped raw) with
    | error e =>
      rw [hip] at h
      cases h
    | ok ip =>
      rw [hip] at h
      dsimp only at h
      split at h
      · rename_i hglobal
        intro other hother
        rcases List.mem_cons.mp hother with rfl | hother
        · rw [globalAddress, hip]
          exact hglobal
        · exact ih h other hother
      · cases h

/-- An address that is none passes an exception on, if no earlier one is refused. -/
theorem checkAddresses_other_iff (host : String) (addresses : List String) :
    (∃ text, checkAddresses lib host addresses = .error (.other text)) ↔
      ¬ ∀ raw, addresses.find? (fun raw => !globalAddress lib raw) = some raw →
        ∃ ip, lib.ipAddress (unscoped raw) = .ok ip := by
  induction addresses with
  | nil => exact iff_of_false nofun fun h => h fun raw hraw => nomatch hraw
  | cons raw addresses ih =>
    rw [checkAddresses]
    cases hip : lib.ipAddress (unscoped raw) with
    | error e =>
      have hglobal : globalAddress lib raw = false := by
        rw [globalAddress, hip]
      refine iff_of_true ⟨e, rfl⟩ fun h => ?_
      obtain ⟨ip, hip'⟩ := h raw (List.find?_cons_of_pos (by rw [hglobal]; rfl))
      exact nomatch hip.symm.trans hip'
    | ok ip =>
      dsimp only
      by_cases hglobal : lib.isGlobal ip = true
      · have hyes : globalAddress lib raw = true := by
          rw [globalAddress, hip]
          exact hglobal
        rw [if_pos hglobal, ih, List.find?_cons_of_neg (by rw [hyes]; decide)]
      · have hno : globalAddress lib raw = false := by
          rw [globalAddress, hip]
          exact eq_false_of_ne_true hglobal
        rw [if_neg hglobal, List.find?_cons_of_pos (by rw [hno]; rfl)]
        refine iff_of_false nofun fun h => h fun found hfound => ?_
        cases hfound
        exact ⟨ip, hip⟩

/-- The cases of the validation, of a URL that is read: it is decided without a lookup, or by one. -/
theorem validateUrl_cases {url : String} {parsed : Url} (hparse : lib.parse url = .ok parsed)
    (resolve : String → Nat → Except ResolveError (List String)) :
    (lookedUp lib allowlist parsed = none ∧ ((∃ text, validateUrl lib allowlist resolve url = .error (.urlNotPermitted text)) ∨
        validateUrl lib allowlist resolve url = .ok () ∧ lib.lower (lib.scheme parsed) ∈ allowedSchemes ∧
          lib.lower (lib.host parsed) ∈ normaliseAllowlist lib allowlist)) ∨
      lib.lower (lib.scheme parsed) ∈ allowedSchemes ∧
        lookedUp lib allowlist parsed = some (lib.host parsed, portOf lib parsed) ∧
        validateUrl lib allowlist resolve url =
          match resolve (lib.host parsed) (portOf lib parsed) with
          | .error (.osError e) => .error (.urlNotPermitted ("Could not resolve host '" ++ lib.host parsed ++ "': " ++ e))
          | .error (.other e) => .error (.other e)
          | .ok [] => .error (.urlNotPermitted ("Host '" ++ lib.host parsed ++ "' resolved to no addresses"))
          | .ok addresses => checkAddresses lib (lib.host parsed) addresses := by
  rw [validateUrl, hparse, lookedUp]
  dsimp only
  by_cases hscheme : lib.lower (lib.scheme parsed) ∈ allowedSchemes
  · rw [if_neg (not_not.mpr hscheme)]
    by_cases hhost : lib.host parsed = ""
    · rw [if_pos hhost, if_pos (.inr (.inl hhost))]
      exact .inl ⟨rfl, .inl ⟨_, rfl⟩⟩
    · rw [if_neg hhost]
      by_cases hallowed : lib.lower (lib.host parsed) ∈ normaliseAllowlist lib allowlist
      · rw [if_pos hallowed, if_pos (.inr (.inr hallowed))]
        exact .inl ⟨rfl, .inr ⟨rfl, hscheme, hallowed⟩⟩
      · rw [if_neg hallowed, if_neg (by rintro (h | h | h); exacts [h hscheme, hhost h, hallowed h])]
        exact .inr ⟨hscheme, rfl, rfl⟩
  · rw [if_pos hscheme, if_pos (.inl hscheme)]
    exact .inl ⟨rfl, .inl ⟨_, rfl⟩⟩

/-- What passes is permitted by the lookup at its hop. -/
theorem validateUrl_permitted {w : World Url} {i : Nat} {u : Url}
    (h : validateUrl lib allowlist (w.resolve i) (lib.str u) = .ok ()) : Permitted lib allowlist w (i, u) := by
  cases hparse : lib.parse (lib.str u) with
  | error e =>
    rw [validateUrl, hparse] at h
    cases h
  | ok parsed =>
    obtain ⟨hscheme, hhost, hport⟩ := lib.reparse u parsed hparse
    have hportOf : portOf lib parsed = portOf lib u := by
      rw [portOf, portOf, hscheme, hport]
    rcases validateUrl_cases lib allowlist hparse (w.resolve i) with ⟨-, ⟨text, hno⟩ | ⟨-, hs, hallowed⟩⟩ | ⟨hs, -, hlooked⟩
    · rw [h] at hno
      cases hno
    · exact ⟨hscheme ▸ hs, .inl (hhost ▸ hallowed)⟩
    · rw [h, hhost, hportOf] at hlooked
      refine ⟨hscheme ▸ hs, .inr ?_⟩
      dsimp only
      cases haddresses : w.resolve i (lib.host u) (portOf lib u) with
      | error e =>
        rw [haddresses] at hlooked
        cases e with
        | osError text => cases hlooked
        | other text => cases hlooked
      | ok addresses =>
        rw [haddresses] at hlooked
        cases addresses with
        | nil => cases hlooked
        | cons raw rest => exact ⟨raw :: rest, rfl, List.cons_ne_nil _ _, checkAddresses_ok lib hlooked.symm⟩

/-- What passes on an exception that is no refusal. -/
theorem validateUrl_escapes_iff (resolve : String → Nat → Except ResolveError (List String)) (url : String) :
    (∃ text, validateUrl lib allowlist resolve url = .error (.other text)) ↔ ¬ Reads lib allowlist resolve url := by
  cases hparse : lib.parse url with
  | error e =>
    rw [validateUrl, hparse]
    exact iff_of_false nofun fun h => h fun parsed host port hok => (nomatch hparse.symm.trans hok)
  | ok parsed =>
    rcases validateUrl_cases lib allowlist hparse resolve with ⟨hnone, hdecided⟩ | ⟨-, hsome, hlooked⟩
    · refine iff_of_false ?_ fun h => h fun other host port hok hlooked => ?_
      · rintro ⟨text, htext⟩
        rcases hdecided with ⟨text', hno⟩ | ⟨hok, -⟩
        · exact nomatch hno.symm.trans htext
        · exact nomatch hok.symm.trans htext
      · cases hparse.symm.trans hok
        exact nomatch hnone.symm.trans hlooked
    · have hreads : Reads lib allowlist resolve url ↔ Resolves lib (resolve (lib.host parsed) (portOf lib parsed)) := by
        constructor
        · exact fun h => h parsed _ _ hparse hsome
        · rintro h other host port hok hlooked
          cases hparse.symm.trans hok
          cases hsome.symm.trans hlooked
          exact h
      rw [hlooked, hreads]
      cases resolve (lib.host parsed) (portOf lib parsed) with
      | error e =>
        cases e with
        | osError text => exact iff_of_false nofun fun h => h trivial
        | other text => exact iff_of_true ⟨text, rfl⟩ id
      | ok addresses =>
        cases addresses with
        | nil => exact iff_of_false nofun fun h => h nofun
        | cons raw rest => exact checkAddresses_other_iff lib (lib.host parsed) (raw :: rest)

/-! ## The loop -/

theorem follow_permitted (w : World Url) (behind : Raised) (hops i : Nat) (current : Url) :
    (∀ request ∈ (follow lib allowlist w behind hops i current).requests, Permitted lib allowlist w request) ∧
      (follow lib allowlist w behind hops i current).requests.length ≤ hops := by
  induction hops generalizing i current with
  | zero => exact ⟨nofun, Nat.le_refl 0⟩
  | succ hops ih =>
    rw [follow]
    cases hvalid : validateUrl lib allowlist (w.resolve i) (lib.str current) with
    | error e => exact ⟨nofun, Nat.zero_le _⟩
    | ok _ =>
      have hone : ∀ request ∈ [(i, current)], Permitted lib allowlist w request := by
        intro request hrequest
        rw [List.mem_singleton.mp hrequest]
        exact validateUrl_permitted lib allowlist hvalid
      have hlen : [(i, current)].length ≤ hops + 1 := Nat.succ_le_succ (Nat.zero_le _)
      cases w.respond i current with
      | error e => exact ⟨hone, hlen⟩
      | ok resp =>
        dsimp only
        split
        · exact ⟨hone, hlen⟩
        · cases resp.location.filter (· ≠ "") with
          | none => exact ⟨hone, hlen⟩
          | some location =>
            dsimp only
            cases lib.join current location with
            | error e => exact ⟨hone, hlen⟩
            | ok next =>
              obtain ⟨hpermitted, hbounded⟩ := ih (i + 1) next
              refine ⟨fun request hrequest => ?_, Nat.succ_le_succ hbounded⟩
              rcases List.mem_cons.mp hrequest with rfl | hrequest
              · exact hone _ (List.mem_singleton_self _)
              · exact hpermitted request hrequest

theorem follows_le {w : World Url} {hop next : Nat × Url} (h : Relation.ReflTransGen (Follows lib allowlist w) hop next) :
    hop.1 ≤ next.1 := by
  induction h with
  | refl => exact Nat.le_refl _
  | tail _ hstep ih =>
    rw [hstep.1]
    omega

/-- Every hop that is reached within so many is clear. -/
def AllClear (w : World Url) (hops : Nat) (hop : Nat × Url) : Prop :=
  ∀ next, Relation.ReflTransGen (Follows lib allowlist w) hop next → next.1 < hop.1 + hops → Clear lib allowlist w next

theorem allClear_zero (w : World Url) (hop : Nat × Url) : AllClear lib allowlist w 0 hop := by
  intro next hreach hlt
  have hle := follows_le lib allowlist hreach
  omega

theorem allClear_succ (w : World Url) (hops : Nat) (hop : Nat × Url) :
    AllClear lib allowlist w (hops + 1) hop ↔
      Clear lib allowlist w hop ∧ ∀ next, Follows lib allowlist w hop next → AllClear lib allowlist w hops next := by
  constructor
  · intro h
    refine ⟨h hop .refl (Nat.lt_add_of_pos_right (Nat.succ_pos _)), fun next hstep later hreach hlt => ?_⟩
    refine h later (.head hstep hreach) ?_
    rw [hstep.1] at hlt
    omega
  · rintro ⟨hclear, hrest⟩ later hreach hlt
    rcases Relation.ReflTransGen.cases_head hreach with rfl | ⟨next, hstep, hreach⟩
    · exact hclear
    · refine hrest next hstep later hreach ?_
      rw [hstep.1]
      omega

/-- Where the server sends a fetch on to nowhere, the hop is clear if its lookup reads. -/
theorem allClear_end {w : World Url} {hops : Nat} {hop : Nat × Url} (h : redirect lib allowlist w hop.1 hop.2 = none) :
    AllClear lib allowlist w (hops + 1) hop ↔ Reads lib allowlist (w.resolve hop.1) (lib.str hop.2) := by
  rw [allClear_succ]
  constructor
  · exact fun hboth => hboth.1.reads
  · refine fun hreads => ⟨⟨hreads, fun location hlocation => ?_⟩, fun next hstep => ?_⟩
    · exact nomatch h.symm.trans hlocation
    · obtain ⟨-, location, hlocation, -⟩ := hstep
      exact nomatch h.symm.trans hlocation

/-- Nothing but a refusal ends the loop, exactly if every hop that is reached is clear. -/
theorem follow_reported_iff {w : World Url} {behind : Raised} (hbehind : ∀ text, behind ≠ .other text) (hops i : Nat)
    (current : Url) :
    (∀ text, (follow lib allowlist w behind hops i current).outcome ≠ .error (.other text)) ↔
      AllClear lib allowlist w hops (i, current) := by
  induction hops generalizing i current with
  | zero =>
    refine iff_of_true (fun text h => ?_) (allClear_zero lib allowlist w (i, current))
    cases h
    exact hbehind text rfl
  | succ hops ih =>
    have hescapes := validateUrl_escapes_iff lib allowlist (w.resolve i) (lib.str current)
    cases hvalid : validateUrl lib allowlist (w.resolve i) (lib.str current) with
    | error e =>
      have hred : redirect lib allowlist w i current = none := by
        rw [redirect, hvalid]
      rw [allClear_end lib allowlist hred, ← not_iff_not, ← hescapes, follow, hvalid]
      push Not
      exact exists_congr fun text => by rw [Except.error.injEq, Except.error.injEq]
    | ok _ =>
      have hreads : Reads lib allowlist (w.resolve i) (lib.str current) := by
        by_contra hno
        obtain ⟨text, htext⟩ := hescapes.mpr hno
        exact nomatch hvalid.symm.trans htext
      rw [follow, hvalid]
      cases hresp : w.respond i current with
      | error e =>
        have hred : redirect lib allowlist w i current = none := by
          rw [redirect, hvalid, hresp]
        exact iff_of_true nofun ((allClear_end lib allowlist hred).mpr hreads)
      | ok resp =>
        dsimp only
        by_cases hstatus : resp.status ∉ redirectStatuses
        · have hred : redirect lib allowlist w i current = none := by
            rw [redirect, hvalid, hresp]
            exact if_pos hstatus
          rw [if_pos hstatus]
          exact iff_of_true nofun ((allClear_end lib allowlist hred).mpr hreads)
        · have hred : redirect lib allowlist w i current = resp.location.filter (· ≠ "") := by
            rw [redirect, hvalid, hresp]
            exact if_neg hstatus
          rw [if_neg hstatus]
          cases hlocation : resp.location.filter (· ≠ "") with
          | none => exact iff_of_true nofun ((allClear_end lib allowlist (hred.trans hlocation)).mpr hreads)
          | some location =>
            have hto := hred.trans hlocation
            dsimp only
            rw [allClear_succ]
            cases hjoin : lib.join current location with
            | error e =>
              refine iff_of_false (fun h => h e rfl) fun hboth => ?_
              obtain ⟨next, hnext⟩ := hboth.1.joins location hto
              exact nomatch hjoin.symm.trans hnext
            | ok next =>
              have hclear : Clear lib allowlist w (i, current) := by
                refine ⟨hreads, fun other hother => ⟨next, ?_⟩⟩
                cases hto.symm.trans hother
                exact hjoin
              have honly : ∀ hop, Follows lib allowlist w (i, current) hop ↔ hop = (i + 1, next) := by
                rintro ⟨j, v⟩
                constructor
                · rintro ⟨hj, other, hother, hv⟩
                  cases hto.symm.trans hother
                  cases hjoin.symm.trans hv
                  exact Prod.ext hj rfl
                · rintro ⟨⟩
                  exact ⟨rfl, location, hto, hjoin⟩
              rw [and_iff_right hclear]
              simp only [honly, forall_eq]
              exact ih (i + 1) next

/-- Of a library that reads one URL, and no text that has a port which is no number. -/
def oneUrl : Library Unit Unit where
  parse text := if text = "http://example.com/" then .ok () else .error "Invalid port: 'abc'"
  str _ := "http://example.com/"
  scheme _ := "http"
  host _ := "example.com"
  port _ := none
  join _ _ := .error "Invalid port: 'abc'"
  reparse _ _ _ := ⟨rfl, rfl, rfl⟩
  lower := id
  ipAddress _ := .ok ()
  ipStr _ := "93.184.215.14"
  isGlobal _ := true
  isLoopback _ := false
  isLinkLocal _ := false
  isPrivate _ := false

end Errand.Server.UrlGuard

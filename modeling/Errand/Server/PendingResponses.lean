import Errand.Lib.Dict
import Errand.Lib.Machine
import Errand.Lib.Slots
import Mathlib.Data.List.Nodup

/-
  Errand.Server.PendingResponses — requests over the cloud socket and their answers
  (`send_and_await`, `_resolve_pending_response` of `cloud_client.py`).

  A call enters two futures in one map, under the response's type and under `oauth_error`,
  each with the provider's name, sends its request and waits for either. The receive loop
  takes a frame at a time and may be long about it (a proxied request); an answer resolves
  whatever future is under its key. A call that wakes, or whose time is up, removes both of
  its keys, whoever's they are by then.

  The cloud answers every request with one frame, in the order of a provider's requests; a
  call's time is up only after its answer has reached the socket. How a frame other than an
  answer keeps the loop busy is open, and the cloud may also report an error that answers
  no request.

  Proved:
  - `answered`: in every run in which a call is made only while no other of its provider is
    in flight, for a type that the loop resolves, no time is up while the answer still waits
    for the loop, and no unasked report meets a waiting call, each call that has returned
    has returned the answer to its own request, and each whose answer has been handled has
    it in its future.
  - `another_calls_answer`: of two calls for one provider the second returns the first's
    answer.
-/

namespace Errand.Server.PendingResponses

open Errand.Lib

structure Frame where
  type : String
  provider : String
  /-- The call whose request it answers. -/
  request : Option Nat
  deriving DecidableEq, Repr

/-- How far a request is. -/
inductive Stage where
  | unsent
  | asked
  | arrived (error : Bool)
  | handled (error : Bool)
  deriving DecidableEq, Repr

structure Call where
  responseType : String
  provider : String
  future : Option Frame
  errorFuture : Option Frame
  returned : Option (Option Frame)
  stage : Stage
  deriving DecidableEq, Repr

structure St where
  calls : List Call
  /-- `_pending_responses`: the call each future is of, and whether it is the error's. -/
  pending : List (String × (Nat × Bool))
  /-- The requests the cloud has yet to answer, in order. -/
  asked : List Nat
  /-- The frames that have reached the socket. -/
  inbox : List Frame
  /-- The frame the receive loop is busy with. -/
  loop : Option Frame
  deriving DecidableEq, Repr

/-! ## The client -/

def key (msgType provider : String) : String := msgType ++ ":" ++ provider

def Call.key (c : Call) : String := PendingResponses.key c.responseType c.provider

def Call.errorKey (c : Call) : String := PendingResponses.key "oauth_error" c.provider

/-- `future.set_result(message)`, unless it is done. -/
def Call.resolve (error : Bool) (message : Frame) (c : Call) : Call :=
  if c.returned.isSome then c
  else if error then { c with errorFuture := c.errorFuture.or (some message) }
  else { c with future := c.future.or (some message) }

def resolvePendingResponse (message : Frame) (s : St) : St :=
  let k := key message.type message.provider
  let s' := { s with pending := Dict.pop s.pending k }
  match Dict.get? s.pending k with
  | some (i, error) => { s' with calls := s'.calls.modify i (Call.resolve error message) }
  | none => s'

/-- The frames whose handlers resolve a waiting call. -/
def resolves (message : Frame) : Bool := message.type = "oauth_refresh_result" || message.type = "oauth_error"

def handleMessage (message : Frame) (s : St) : St :=
  if resolves message then resolvePendingResponse message s else s

/-- The entry of a call of `send_and_await`. -/
def enter (responseType provider : String) (s : St) : St :=
  let c : Call := ⟨responseType, provider, none, none, none, .unsent⟩
  { s with
    calls := s.calls ++ [c]
    pending := Dict.set (Dict.set s.pending c.key (s.calls.length, false)) c.errorKey (s.calls.length, true) }

/-- The end of a call: what is left of its keys is removed. -/
def leave (i : Nat) (c : Call) (result : Option Frame) (s : St) : St :=
  { s with
    calls := s.calls.modify i fun c => { c with returned := some result }
    pending := Dict.pop (Dict.pop s.pending c.key) c.errorKey }

/-- What is made of the future that is done. -/
def resultOf (message : Frame) : Option Frame := if message.type = "oauth_error" then none else some message

/-! ## Runs -/

inductive Event where
  | call (responseType provider : String)
  /-- The request reaches the cloud. -/
  | sent (i : Nat)
  | answer (i : Nat) (error : Bool)
  /-- A frame that answers nothing. -/
  | other (message : Frame)
  | take
  | handled
  | wake (i : Nat) (error : Bool)
  | timeout (i : Nat)
  deriving DecidableEq, Repr

def answerOf (i : Nat) (error : Bool) (c : Call) : Frame :=
  ⟨if error then "oauth_error" else c.responseType, c.provider, some i⟩

/-- The first of its provider among those to be answered. -/
def isNext (s : St) (i : Nat) (c : Call) : Bool :=
  (s.asked.find? fun j => s.calls[j]?.any fun d => d.provider = c.provider) = some i

def setStage (i : Nat) (stage : Stage) (calls : List Call) : List Call := calls.modify i fun c => { c with stage }

def Stage.reached : Stage → Bool
  | .arrived _ | .handled _ => true
  | _ => false

/-- What the loop does at the end of a frame. -/
def finish (message : Frame) (s : St) : St :=
  let s := handleMessage message { s with loop := none }
  match message.request with
  | some i => { s with calls := setStage i (.handled (message.type = "oauth_error")) s.calls }
  | none => s

def step (s : St) : Event → Option St
  | .call responseType provider => some (enter responseType provider s)
  | .sent i =>
    match s.calls[i]? with
    | some c => if c.stage = .unsent then some { s with calls := setStage i .asked s.calls, asked := s.asked ++ [i] } else none
    | none => none
  | .answer i error =>
    match s.calls[i]? with
    | some c =>
      if isNext s i c then
        some { s with
          calls := setStage i (.arrived error) s.calls
          asked := s.asked.erase i
          inbox := s.inbox ++ [answerOf i error c] }
      else none
    | none => none
  | .other message => if message.request = none then some { s with inbox := s.inbox ++ [message] } else none
  | .take =>
    match s.loop, s.inbox with
    | none, message :: inbox => some { s with loop := some message, inbox }
    | _, _ => none
  | .handled => s.loop.map fun message => finish message s
  | .wake i error =>
    match s.calls[i]? with
    | some c =>
      match c.returned, if error then c.errorFuture else c.future with
      | none, some message => some (leave i c (resultOf message) s)
      | _, _ => none
    | none => none
  | .timeout i =>
    match s.calls[i]? with
    | some c =>
      -- The answer has reached the socket by then.
      if c.returned = none ∧ c.future = none ∧ c.errorFuture = none ∧ c.stage.reached = true then some (leave i c none s)
      else none
    | none => none

def start : St := ⟨[], [], [], [], none⟩

def machine : Machine St Event where
  init s := s = start
  step := step

/-- Each call returns the answer to its own request, and none exactly for an error; one
    whose answer has been handled can return. -/
structure Answered (s : St) : Prop where
  returned : ∀ (i : Nat) (c : Call) result, s.calls[i]? = some c → c.returned = some result →
    ∃ error, c.stage = .handled error ∧ result = if error then none else some (answerOf i false c)
  resolved : ∀ (i : Nat) (c : Call) error, s.calls[i]? = some c → c.returned = none → c.stage = .handled error →
    (if error then c.errorFuture else c.future) = some (answerOf i error c)

/-- The frames on their way to a handler. -/
def frames (s : St) : List Frame := s.loop.toList ++ s.inbox

/-- No other call of the provider is in flight, no time is up while the answer waits for the
    loop, and no frame but an answer resolves a future. -/
def Unmixed (s : St) : Event → Prop
  | .call responseType provider =>
    responseType = "oauth_refresh_result" ∧ ∀ c ∈ s.calls, c.returned = none → c.provider ≠ provider
  | .timeout i => ∀ message ∈ frames s, message.request ≠ some i
  | .handled => ∀ message, s.loop = some message → message.request = none → resolves message = true →
      Dict.get? s.pending (key message.type message.provider) = none
  | _ => True

/-! ## Keys -/

theorem key_injective {msgType p q : String} (h : key msgType p = key msgType q) : p = q :=
  (String.append_right_inj _).mp h

theorem key_ne_errorKey (p q : String) : key "oauth_refresh_result" p ≠ key "oauth_error" q := by
  intro h
  have hlist := congrArg String.toList h
  simp [key, String.toList_append] at hlist

/-- The key an answer is handled under. -/
theorem key_answerOf (i : Nat) (error : Bool) (c : Call) :
    key (answerOf i error c).type (answerOf i error c).provider = if error then c.errorKey else c.key := by
  cases error <;> rfl

/-- The keys of a call are not among those of another provider's. -/
theorem keys_apart {c d : Call} (hc : c.responseType = "oauth_refresh_result") (hd : d.responseType = "oauth_refresh_result")
    (h : c.provider ≠ d.provider) :
    c.key ≠ d.key ∧ c.key ≠ d.errorKey ∧ c.errorKey ≠ d.key ∧ c.errorKey ≠ d.errorKey := by
  unfold Call.key Call.errorKey
  rw [hc, hd]
  refine ⟨?_, key_ne_errorKey _ _, (key_ne_errorKey _ _).symm, ?_⟩
  · intro heq
    exact h (key_injective heq)
  · intro heq
    exact h (key_injective heq)

theorem key_ne_errorKey_self {c : Call} (hc : c.responseType = "oauth_refresh_result") : c.key ≠ c.errorKey := by
  unfold Call.key Call.errorKey
  rw [hc]
  exact key_ne_errorKey _ _

/-! ## What holds of each call -/

/-- One call, among the futures that are pending. -/
structure CallInv (pending : List (String × (Nat × Bool))) (i : Nat) (c : Call) : Prop where
  typed : c.returned = none → c.responseType = "oauth_refresh_result"
  waiting : c.returned = none → (∀ error, c.stage ≠ .handled error) →
    c.future = none ∧ c.errorFuture = none ∧ Dict.get? pending c.key = some (i, false) ∧
      Dict.get? pending c.errorKey = some (i, true)
  resolved : c.returned = none → ∀ error, c.stage = .handled error →
    (if error then c.errorFuture else c.future) = some (answerOf i error c) ∧
      (if error then c.future else c.errorFuture) = none
  returned : ∀ result, c.returned = some result →
    ∃ error, c.stage = .handled error ∧ result = if error then none else some (answerOf i false c)

structure Inv (s : St) : Prop where
  calls : ∀ (i : Nat) (c : Call), s.calls[i]? = some c → CallInv s.pending i c
  apart : ∀ (i j : Nat) (c d : Call), s.calls[i]? = some c → s.calls[j]? = some d → c.returned = none → d.returned = none →
    c.provider = d.provider → i = j
  asked : ∀ i ∈ s.asked, ∃ c, s.calls[i]? = some c ∧ c.stage = .asked
  askedOnce : s.asked.Nodup
  framed : ∀ f ∈ frames s, ∀ i, f.request = some i →
    ∃ c error, s.calls[i]? = some c ∧ c.stage = .arrived error ∧ f = answerOf i error c
  arrived : ∀ (i : Nat) (c : Call) error, s.calls[i]? = some c → c.stage = .arrived error → ∃ f ∈ frames s, f.request = some i
  once : ((frames s).filterMap Frame.request).Nodup

theorem start_inv : Inv start := by
  refine ⟨?_, ?_, nofun, List.nodup_nil, nofun, ?_, List.nodup_nil⟩
  · intro i c h
    cases h
  · intro i j c d h
    cases h
  · intro i c error h
    cases h

/-- A request that is not handled is in flight. -/
theorem CallInv.in_flight {pending : List (String × (Nat × Bool))} {i : Nat} {c : Call} (h : CallInv pending i c)
    (hstage : ∀ error, c.stage ≠ .handled error) : c.returned = none := by
  cases hreturned : c.returned with
  | none => rfl
  | some result =>
    obtain ⟨error, hhandled, -⟩ := h.returned result hreturned
    exact absurd hhandled (hstage error)

/-- The map matters only for the keys of a call that waits. -/
theorem CallInv.pending {pending pending' : List (String × (Nat × Bool))} {i : Nat} {c : Call} (h : CallInv pending i c)
    (hkeys : c.returned = none → (∀ error, c.stage ≠ .handled error) →
      Dict.get? pending' c.key = Dict.get? pending c.key ∧ Dict.get? pending' c.errorKey = Dict.get? pending c.errorKey) :
    CallInv pending' i c := by
  refine ⟨h.typed, ?_, h.resolved, h.returned⟩
  intro hreturned hstage
  obtain ⟨hfuture, herror, hkey, herrorKey⟩ := h.waiting hreturned hstage
  obtain ⟨hsame, hsameError⟩ := hkeys hreturned hstage
  exact ⟨hfuture, herror, hsame.trans hkey, hsameError.trans herrorKey⟩

/-- Two frames of the loop and the socket do not answer one request. -/
theorem once_cons {f : Frame} {fs : List Frame} {i : Nat} (h : ((f :: fs).filterMap Frame.request).Nodup) (hf : f.request = some i) :
    ∀ g ∈ fs, g.request ≠ some i := by
  rw [List.filterMap_cons_some hf] at h
  intro g hg hrequest
  exact (List.nodup_cons.mp h).1 (List.mem_filterMap.mpr ⟨g, hg, hrequest⟩)

/-! ## The steps -/

theorem enter_inv {s : St} {responseType provider : String} (hinv : Inv s)
    (hc : Unmixed s (.call responseType provider)) : Inv (enter responseType provider s) := by
  obtain ⟨rfl, hfree⟩ := hc
  have hnew : (enter "oauth_refresh_result" provider s).calls =
      s.calls ++ [⟨"oauth_refresh_result", provider, none, none, none, .unsent⟩] := rfl
  refine ⟨?_, ?_, ?_, hinv.askedOnce, ?_, ?_, hinv.once⟩
  · intro i c hi
    rw [hnew] at hi
    rcases Slots.append_cases hi with hi | ⟨rfl, rfl⟩
    · refine (hinv.calls i c hi).pending ?_
      intro hreturned _
      have hne := hfree c (List.mem_of_getElem? hi) hreturned
      obtain ⟨hkk, hke, hek, hee⟩ := keys_apart ((hinv.calls i c hi).typed hreturned)
        (d := ⟨"oauth_refresh_result", provider, none, none, none, .unsent⟩) rfl hne
      constructor
      · exact (Dict.get?_set_other _ _ (Ne.symm hke)).trans (Dict.get?_set_other _ _ (Ne.symm hkk))
      · exact (Dict.get?_set_other _ _ (Ne.symm hee)).trans (Dict.get?_set_other _ _ (Ne.symm hek))
    · refine ⟨fun _ => rfl, fun _ _ => ⟨rfl, rfl, ?_, Dict.get?_set_self _ _ _⟩, fun _ _ => nofun, nofun⟩
      rw [show (enter "oauth_refresh_result" provider s).pending = Dict.set (Dict.set s.pending _ _) _ _ from rfl,
        Dict.get?_set_other _ _ (Ne.symm (key_ne_errorKey_self rfl)), Dict.get?_set_self]
  · intro i j c d hi hj hcr hdr hprovider
    rw [hnew] at hi hj
    rcases Slots.append_cases hi with hi | ⟨rfl, rfl⟩
    · rcases Slots.append_cases hj with hj | ⟨rfl, rfl⟩
      · exact hinv.apart i j c d hi hj hcr hdr hprovider
      · exact absurd hprovider (hfree c (List.mem_of_getElem? hi) hcr)
    · rcases Slots.append_cases hj with hj | ⟨rfl, rfl⟩
      · exact absurd hprovider.symm (hfree d (List.mem_of_getElem? hj) hdr)
      · rfl
  · intro i hi
    obtain ⟨c, hget, hstage⟩ := hinv.asked i hi
    exact ⟨c, Slots.append_old _ hget, hstage⟩
  · intro f hf i hrequest
    obtain ⟨c, error, hget, hstage, hanswer⟩ := hinv.framed f hf i hrequest
    exact ⟨c, error, Slots.append_old _ hget, hstage, hanswer⟩
  · intro i c error hi hstage
    rw [hnew] at hi
    rcases Slots.append_cases hi with hi | ⟨rfl, rfl⟩
    · exact hinv.arrived i c error hi hstage
    · cases hstage

/-- A request that goes on, in flight and without a result as before. -/
theorem CallInv.staged {pending : List (String × (Nat × Bool))} {i : Nat} {c : Call} {stage : Stage} (h : CallInv pending i c)
    (hold : ∀ error, c.stage ≠ .handled error) (hnew : ∀ error, stage ≠ .handled error) :
    CallInv pending i { c with stage } := by
  have hflying := h.in_flight hold
  refine ⟨h.typed, fun hreturned _ => h.waiting hreturned hold, ?_, ?_⟩
  · intro _ error hhandled
    exact absurd hhandled (hnew error)
  · intro result hreturned
    rw [show c.returned = some result from hreturned] at hflying
    cases hflying

theorem calls_staged {s : St} {i : Nat} {c : Call} {stage : Stage} (hinv : Inv s) (hget : s.calls[i]? = some c)
    (hold : ∀ error, c.stage ≠ .handled error) (hnew : ∀ error, stage ≠ .handled error) :
    ∀ (j : Nat) (d : Call), (setStage i stage s.calls)[j]? = some d → CallInv s.pending j d := by
  intro j d hd
  obtain ⟨e, he, rfl⟩ := Slots.get_modify hd
  split
  · rename_i hij
    subst hij
    rw [hget] at he
    cases he
    exact (hinv.calls i c hget).staged hold hnew
  · exact hinv.calls j e he

theorem apart_modify {s : St} {i : Nat} {f : Call → Call} (hinv : Inv s) (hprovider : ∀ c, (f c).provider = c.provider)
    (hreturned : ∀ c, (f c).returned = none → c.returned = none) :
    ∀ (j k : Nat) (c d : Call), (s.calls.modify i f)[j]? = some c → (s.calls.modify i f)[k]? = some d →
      c.returned = none → d.returned = none → c.provider = d.provider → j = k := by
  have hsame : ∀ (b : Bool) (c : Call), (if b then f c else c).provider = c.provider ∧
      ((if b then f c else c).returned = none → c.returned = none) := by
    intro b c
    cases b with
    | true => exact ⟨hprovider c, hreturned c⟩
    | false => exact ⟨rfl, id⟩
  intro j k c d hc hd hcr hdr heq
  obtain ⟨c', hc', rfl⟩ := Slots.get_modify hc
  obtain ⟨d', hd', rfl⟩ := Slots.get_modify hd
  have hcs := hsame (decide (i = j)) c'
  have hds := hsame (decide (i = k)) d'
  simp only [decide_eq_true_eq] at hcs hds
  rw [hcs.1, hds.1] at heq
  exact hinv.apart j k c' d' hc' hd' (hcs.2 hcr) (hds.2 hdr) heq

theorem sent_inv {s : St} {i : Nat} {c : Call} (hinv : Inv s) (hget : s.calls[i]? = some c) (hstage : c.stage = .unsent) :
    Inv { s with calls := setStage i .asked s.calls, asked := s.asked ++ [i] } := by
  have hnot : i ∉ s.asked := by
    intro hmem
    obtain ⟨d, hd, hasked⟩ := hinv.asked i hmem
    rw [hget] at hd
    cases hd
    rw [hstage] at hasked
    cases hasked
  refine ⟨?_, ?_, ?_, ?_, ?_, ?_, hinv.once⟩
  · exact calls_staged hinv hget (by rw [hstage]; nofun) nofun
  · exact apart_modify hinv (fun _ => rfl) fun _ h => h
  · intro j hj
    rcases List.mem_append.mp hj with hj | hj
    · obtain ⟨d, hd, hasked⟩ := hinv.asked j hj
      have hij : i ≠ j := by
        intro heq
        rw [heq] at hnot
        exact hnot hj
      exact ⟨d, (List.getElem?_modify_ne _ _ hij).trans hd, hasked⟩
    · rw [List.mem_singleton.mp hj]
      exact ⟨_, Slots.get_modify_self hget, rfl⟩
  · exact List.nodup_append.mpr ⟨hinv.askedOnce, List.nodup_singleton i, by
      intro j hj k hk
      rw [List.mem_singleton.mp hk]
      intro heq
      rw [heq] at hj
      exact hnot hj⟩
  · intro f hf j hrequest
    obtain ⟨d, error, hd, harrived, hanswer⟩ := hinv.framed f hf j hrequest
    have hij : i ≠ j := by
      intro heq
      rw [← heq, hget] at hd
      cases hd
      rw [hstage] at harrived
      cases harrived
    exact ⟨d, error, (List.getElem?_modify_ne _ _ hij).trans hd, harrived, hanswer⟩
  · intro j d error hd harrived
    obtain ⟨e, he, rfl⟩ := Slots.get_modify hd
    split at harrived
    · cases harrived
    · exact hinv.arrived j e error he harrived

theorem answer_inv {s : St} {i : Nat} {c : Call} {error : Bool} (hinv : Inv s) (hget : s.calls[i]? = some c)
    (hnext : isNext s i c = true) :
    Inv { s with
      calls := setStage i (.arrived error) s.calls
      asked := s.asked.erase i
      inbox := s.inbox ++ [answerOf i error c] } := by
  have hmem : i ∈ s.asked := List.mem_of_find?_eq_some (of_decide_eq_true hnext)
  have hstage : c.stage = .asked := by
    obtain ⟨d, hd, hasked⟩ := hinv.asked i hmem
    rw [hget] at hd
    cases hd
    exact hasked
  have hframes : frames { s with
      calls := setStage i (.arrived error) s.calls
      asked := s.asked.erase i
      inbox := s.inbox ++ [answerOf i error c] } = frames s ++ [answerOf i error c] := by
    unfold frames
    exact (List.append_assoc _ _ _).symm
  have hnew : ∀ f ∈ frames s, f.request ≠ some i := by
    intro f hf hrequest
    obtain ⟨d, e, hd, harrived, -⟩ := hinv.framed f hf i hrequest
    rw [hget] at hd
    cases hd
    rw [hstage] at harrived
    cases harrived
  refine ⟨?_, ?_, ?_, hinv.askedOnce.erase i, ?_, ?_, ?_⟩
  · exact calls_staged hinv hget (by rw [hstage]; nofun) nofun
  · exact apart_modify hinv (fun _ => rfl) fun _ h => h
  · intro j hj
    obtain ⟨hji, hj⟩ := (hinv.askedOnce.mem_erase_iff).mp hj
    obtain ⟨d, hd, hasked⟩ := hinv.asked j hj
    exact ⟨d, (List.getElem?_modify_ne _ _ (Ne.symm hji)).trans hd, hasked⟩
  · intro f hf j hrequest
    rw [hframes] at hf
    rcases List.mem_append.mp hf with hf | hf
    · obtain ⟨d, e, hd, harrived, hanswer⟩ := hinv.framed f hf j hrequest
      have hij : i ≠ j := by
        intro heq
        rw [← heq] at hrequest
        exact hnew f hf hrequest
      exact ⟨d, e, (List.getElem?_modify_ne _ _ hij).trans hd, harrived, hanswer⟩
    · rw [List.mem_singleton.mp hf] at hrequest ⊢
      cases hrequest
      exact ⟨_, error, Slots.get_modify_self hget, rfl, rfl⟩
  · intro j d e hd harrived
    rw [hframes]
    obtain ⟨b, hb, rfl⟩ := Slots.get_modify hd
    split at harrived
    · rename_i hij
      subst hij
      exact ⟨answerOf i error c, List.mem_append_right _ (List.mem_singleton_self _), rfl⟩
    · obtain ⟨f, hf, hrequest⟩ := hinv.arrived j b e hb harrived
      exact ⟨f, List.mem_append_left _ hf, hrequest⟩
  · rw [hframes, List.filterMap_append]
    refine List.nodup_append.mpr ⟨hinv.once, List.nodup_singleton i, ?_⟩
    intro j hj k hk heq
    obtain ⟨f, hf, hrequest⟩ := List.mem_filterMap.mp hj
    rw [List.mem_singleton.mp hk] at heq
    exact hnew f hf (heq ▸ hrequest)

theorem take_frames {s : St} {message : Frame} {inbox : List Frame} (hloop : s.loop = none) (hinbox : s.inbox = message :: inbox) :
    frames { s with loop := some message, inbox } = frames s := by
  unfold frames
  rw [hloop, hinbox]
  rfl

/-- Frames that are the same, or more that answer nothing, keep the invariant. -/
theorem Inv.framesOnly {s t : St} (hinv : Inv s) (hcalls : t.calls = s.calls) (hpending : t.pending = s.pending)
    (hasked : t.asked = s.asked) (extra : List Frame) (hextra : ∀ f ∈ extra, f.request = none)
    (hframes : frames t = frames s ++ extra) : Inv t := by
  refine ⟨?_, ?_, ?_, ?_, ?_, ?_, ?_⟩
  · rw [hcalls, hpending]
    exact hinv.calls
  · rw [hcalls]
    exact hinv.apart
  · rw [hcalls, hasked]
    exact hinv.asked
  · rw [hasked]
    exact hinv.askedOnce
  · rw [hcalls, hframes]
    intro f hf i hrequest
    rcases List.mem_append.mp hf with hf | hf
    · exact hinv.framed f hf i hrequest
    · rw [hextra f hf] at hrequest
      cases hrequest
  · rw [hcalls, hframes]
    intro i c error hi hstage
    obtain ⟨f, hf, hrequest⟩ := hinv.arrived i c error hi hstage
    exact ⟨f, List.mem_append_left _ hf, hrequest⟩
  · rw [hframes, List.filterMap_append, List.filterMap_eq_nil_iff.mpr hextra, List.append_nil]
    exact hinv.once

/-- What the handler of an answer does to its call. -/
def Call.answered (error : Bool) (message : Frame) (c : Call) : Call :=
  { c.resolve error message with stage := .handled error }

theorem answered_inv {pending : List (String × (Nat × Bool))} {i : Nat} {c : Call} {error : Bool}
    (h : CallInv pending i c) (hstage : c.stage = .arrived error) (pending' : List (String × (Nat × Bool))) :
    CallInv pending' i (c.answered error (answerOf i error c)) := by
  have hold : ∀ e, c.stage ≠ .handled e := by
    intro e
    rw [hstage]
    nofun
  have hflying := h.in_flight hold
  obtain ⟨hfuture, herror, -, -⟩ := h.waiting hflying hold
  have hanswered : c.answered error (answerOf i error c) =
      { c with
        future := if error then none else some (answerOf i error c)
        errorFuture := if error then some (answerOf i error c) else none
        stage := .handled error } := by
    unfold Call.answered Call.resolve
    rw [hflying, hfuture, herror]
    cases error <;> rfl
  rw [hanswered]
  refine ⟨h.typed, ?_, ?_, ?_⟩
  · intro _ hnot
    exact absurd rfl (hnot error)
  · intro _ e he
    cases he
    cases error <;> exact ⟨rfl, rfl⟩
  · intro result hreturned
    rw [show c.returned = some result from hreturned] at hflying
    cases hflying

/-- An answer is handled: its call's future is the one under its key. -/
theorem finish_answer {s : St} {message : Frame} {i : Nat} {c : Call} {error : Bool} (hinv : Inv s)
    (hget : s.calls[i]? = some c) (hstage : c.stage = .arrived error) (hmessage : message = answerOf i error c) :
    finish message s =
      { s with
        calls := s.calls.modify i (Call.answered error message)
        pending := Dict.pop s.pending (if error then c.errorKey else c.key)
        loop := none } := by
  have hold : ∀ e, c.stage ≠ .handled e := by
    intro e
    rw [hstage]
    nofun
  have hci := hinv.calls i c hget
  have hflying := hci.in_flight hold
  have htyped := hci.typed hflying
  obtain ⟨-, -, hkey, herrorKey⟩ := hci.waiting hflying hold
  have hresolves : resolves message = true := by
    rw [hmessage]
    unfold resolves answerOf
    rw [htyped]
    cases error <;> rfl
  have hentry : Dict.get? s.pending (key message.type message.provider) = some (i, error) := by
    rw [hmessage, key_answerOf]
    cases error with
    | true => exact herrorKey
    | false => exact hkey
  have hkind : decide (message.type = "oauth_error") = error := by
    rw [hmessage]
    unfold answerOf
    rw [htyped]
    cases error <;> rfl
  have hrequest : message.request = some i := by
    rw [hmessage]
    rfl
  unfold finish handleMessage
  rw [if_pos hresolves]
  unfold resolvePendingResponse
  dsimp only
  rw [hentry, hrequest, hkind]
  dsimp only
  unfold setStage
  rw [List.modify_modify_eq]
  rw [hmessage, key_answerOf]
  rfl

theorem finish_answer_inv {s : St} {message : Frame} {i : Nat} (hinv : Inv s) (hloop : s.loop = some message)
    (hrequest : message.request = some i) : Inv (finish message s) := by
  have hframes : frames s = message :: s.inbox := by
    unfold frames
    rw [hloop]
    rfl
  obtain ⟨c, error, hget, hstage, hmessage⟩ := hinv.framed message (hframes ▸ List.mem_cons_self ..) i hrequest
  have hothers := once_cons (hframes ▸ hinv.once) hrequest
  have hold : ∀ e, c.stage ≠ .handled e := by
    intro e
    rw [hstage]
    nofun
  have hci := hinv.calls i c hget
  have hflying := hci.in_flight hold
  rw [finish_answer hinv hget hstage hmessage]
  have hinbox : frames { s with
      calls := s.calls.modify i (Call.answered error message)
      pending := Dict.pop s.pending (if error then c.errorKey else c.key)
      loop := none } = s.inbox := rfl
  refine ⟨?_, ?_, ?_, hinv.askedOnce, ?_, ?_, ?_⟩
  · intro j d hd
    obtain ⟨e, he, rfl⟩ := Slots.get_modify hd
    by_cases hij : i = j
    · rw [if_pos hij]
      subst hij
      rw [hget] at he
      cases he
      rw [hmessage]
      exact answered_inv hci hstage _
    · rw [if_neg hij]
      refine (hinv.calls j e he).pending ?_
      intro hreturned _
      have hne : c.provider ≠ e.provider := fun heq => hij (hinv.apart i j c e hget he hflying hreturned heq)
      obtain ⟨hkk, hke, hek, hee⟩ := keys_apart (hci.typed hflying) ((hinv.calls j e he).typed hreturned) hne
      cases error with
      | true => exact ⟨Dict.get?_pop_other _ hek, Dict.get?_pop_other _ hee⟩
      | false => exact ⟨Dict.get?_pop_other _ hkk, Dict.get?_pop_other _ hke⟩
  · have hsame : ∀ d : Call, (d.resolve error message).provider = d.provider ∧
        (d.resolve error message).returned = d.returned := by
      intro d
      unfold Call.resolve
      split
      · exact ⟨rfl, rfl⟩
      · split <;> exact ⟨rfl, rfl⟩
    exact apart_modify hinv (fun d => (hsame d).1) fun d hd => (hsame d).2 ▸ hd
  · intro j hj
    obtain ⟨d, hd, hasked⟩ := hinv.asked j hj
    have hij : i ≠ j := by
      intro heq
      rw [← heq, hget] at hd
      cases hd
      rw [hstage] at hasked
      cases hasked
    exact ⟨d, (List.getElem?_modify_ne _ _ hij).trans hd, hasked⟩
  · intro f hf j hj
    rw [hinbox] at hf
    obtain ⟨d, e, hd, harrived, hanswer⟩ := hinv.framed f (hframes ▸ List.mem_cons_of_mem _ hf) j hj
    have hij : i ≠ j := by
      intro heq
      rw [← heq] at hj
      exact hothers f hf hj
    exact ⟨d, e, (List.getElem?_modify_ne _ _ hij).trans hd, harrived, hanswer⟩
  · intro j d e hd harrived
    obtain ⟨b, hb, rfl⟩ := Slots.get_modify hd
    split at harrived
    · cases harrived
    · rename_i hij
      obtain ⟨f, hf, hf'⟩ := hinv.arrived j b e hb harrived
      rw [hframes] at hf
      rcases List.mem_cons.mp hf with rfl | hf
      · rw [hrequest] at hf'
        exact absurd (Option.some.inj hf') hij
      · exact ⟨f, hf, hf'⟩
  · rw [hinbox]
    have honce := hinv.once
    rw [hframes, List.filterMap_cons_some hrequest] at honce
    exact (List.nodup_cons.mp honce).2

/-- A frame that answers nothing finds no future. -/
theorem finish_other_inv {s : St} {message : Frame} (hinv : Inv s) (hloop : s.loop = some message)
    (hrequest : message.request = none) (hc : resolves message = true →
      Dict.get? s.pending (key message.type message.provider) = none) : Inv (finish message s) := by
  have hframes : frames s = message :: s.inbox := by
    unfold frames
    rw [hloop]
    rfl
  -- with the frame gone, the others are as they were
  have hinbox : Inv { s with loop := none } := by
    refine ⟨hinv.calls, hinv.apart, hinv.asked, hinv.askedOnce, ?_, ?_, ?_⟩
    · intro f hf
      exact hinv.framed f (hframes ▸ List.mem_cons_of_mem _ hf)
    · intro i c error hi hstage
      obtain ⟨f, hf, hf'⟩ := hinv.arrived i c error hi hstage
      rw [hframes] at hf
      rcases List.mem_cons.mp hf with rfl | hf
      · rw [hrequest] at hf'
        cases hf'
      · exact ⟨f, hf, hf'⟩
    · have honce := hinv.once
      rw [hframes, List.filterMap_cons_none hrequest] at honce
      exact honce
  have hfinish : finish message s = handleMessage message { s with loop := none } := by
    unfold finish
    rw [hrequest]
  rw [hfinish]
  unfold handleMessage
  split
  · rename_i hresolves
    have hnone := hc hresolves
    unfold resolvePendingResponse
    dsimp only
    rw [hnone]
    refine ⟨?_, hinbox.apart, hinbox.asked, hinbox.askedOnce, hinbox.framed, hinbox.arrived, hinbox.once⟩
    intro i c hi
    refine (hinv.calls i c hi).pending ?_
    intro hreturned hstage
    obtain ⟨-, -, hkey, herrorKey⟩ := (hinv.calls i c hi).waiting hreturned hstage
    constructor
    · refine Dict.get?_pop_other _ ?_
      intro heq
      rw [heq, hkey] at hnone
      cases hnone
    · refine Dict.get?_pop_other _ ?_
      intro heq
      rw [heq, herrorKey] at hnone
      cases hnone
  · exact hinbox

/-- A future that is done holds the call's answer. -/
theorem resultOf_future {pending : List (String × (Nat × Bool))} {i : Nat} {c : Call} {error : Bool} {message : Frame}
    (h : CallInv pending i c) (hreturned : c.returned = none)
    (hfuture : (if error then c.errorFuture else c.future) = some message) :
    c.stage = .handled error ∧ resultOf message = if error then none else some (answerOf i false c) := by
  have htyped := h.typed hreturned
  have hhandled : ∃ e, c.stage = .handled e := by
    cases hstage : c.stage with
    | handled e => exact ⟨e, rfl⟩
    | _ =>
      obtain ⟨hnone, hnoError, -⟩ := h.waiting hreturned (by rw [hstage]; nofun)
      rw [hnone, hnoError] at hfuture
      cases error <;> cases hfuture
  obtain ⟨e, hstage⟩ := hhandled
  obtain ⟨hdone, hother⟩ := h.resolved hreturned e hstage
  have hsame : e = error := by
    cases e <;> cases error
    · rfl
    · rw [if_pos rfl] at hfuture
      rw [if_neg (by nofun), hfuture] at hother
      cases hother
    · rw [if_neg (by nofun)] at hfuture
      rw [if_pos rfl, hfuture] at hother
      cases hother
    · rfl
  subst hsame
  rw [hdone] at hfuture
  cases hfuture
  refine ⟨hstage, ?_⟩
  unfold resultOf answerOf
  rw [htyped]
  cases e <;> rfl

theorem leave_inv {s : St} {i : Nat} {c : Call} {result : Option Frame} {error : Bool} (hinv : Inv s)
    (hget : s.calls[i]? = some c) (hflying : c.returned = none) (hstage : c.stage = .handled error)
    (hresult : result = if error then none else some (answerOf i false c)) : Inv (leave i c result s) := by
  have hcalls : (leave i c result s).calls = s.calls.modify i fun c => { c with returned := some result } := rfl
  refine ⟨?_, ?_, ?_, hinv.askedOnce, ?_, ?_, hinv.once⟩
  · intro j d hd
    rw [hcalls] at hd
    obtain ⟨e, he, rfl⟩ := Slots.get_modify hd
    split
    · rename_i hij
      subst hij
      rw [hget] at he
      cases he
      refine ⟨nofun, nofun, nofun, ?_⟩
      intro r hr
      cases hr
      exact ⟨error, hstage, hresult⟩
    · rename_i hij
      refine (hinv.calls j e he).pending ?_
      intro hreturned _
      have hne : c.provider ≠ e.provider := fun heq => hij (hinv.apart i j c e hget he hflying hreturned heq)
      obtain ⟨hkk, hke, hek, hee⟩ :=
        keys_apart ((hinv.calls i c hget).typed hflying) ((hinv.calls j e he).typed hreturned) hne
      constructor
      · exact (Dict.get?_pop_other _ hek).trans (Dict.get?_pop_other _ hkk)
      · exact (Dict.get?_pop_other _ hee).trans (Dict.get?_pop_other _ hke)
  · exact apart_modify hinv (fun _ => rfl) fun _ h => nomatch h
  · intro j hj
    obtain ⟨d, hd, hasked⟩ := hinv.asked j hj
    by_cases hij : i = j
    · subst hij
      exact ⟨_, Slots.get_modify_self hd, hasked⟩
    · exact ⟨d, (List.getElem?_modify_ne _ _ hij).trans hd, hasked⟩
  · intro f hf j hrequest
    obtain ⟨d, e, hd, harrived, hanswer⟩ := hinv.framed f hf j hrequest
    have hij : i ≠ j := by
      intro heq
      rw [← heq, hget] at hd
      cases hd
      rw [hstage] at harrived
      cases harrived
    exact ⟨d, e, (List.getElem?_modify_ne _ _ hij).trans hd, harrived, hanswer⟩
  · intro j d e hd harrived
    rw [hcalls] at hd
    obtain ⟨b, hb, rfl⟩ := Slots.get_modify hd
    refine hinv.arrived j b e hb ?_
    split at harrived
    · exact harrived
    · exact harrived

/-- Where no answer waits for the loop, a call that could time out has its answer. -/
theorem timeout_handled {s : St} {i : Nat} {c : Call} (hinv : Inv s) (hget : s.calls[i]? = some c)
    (hreached : c.stage.reached = true) (hc : ∀ message ∈ frames s, message.request ≠ some i) :
    ∃ error, c.stage = .handled error := by
  cases hstage : c.stage with
  | handled error => exact ⟨error, rfl⟩
  | arrived error =>
    obtain ⟨f, hf, hrequest⟩ := hinv.arrived i c error hget hstage
    exact absurd hrequest (hc f hf)
  | _ =>
    rw [hstage] at hreached
    cases hreached

theorem step_inv {s s' : St} {e : Event} (hinv : Inv s) (hc : Unmixed s e) (h : step s e = some s') : Inv s' := by
  cases e with
  | call responseType provider =>
    cases h
    exact enter_inv hinv hc
  | sent i =>
    simp only [step] at h
    cases hget : s.calls[i]? with
    | none => simp [hget] at h
    | some c =>
      rw [hget] at h
      obtain ⟨hstage, h⟩ := Option.ite_none_right_eq_some.mp h
      cases h
      exact sent_inv hinv hget hstage
  | answer i error =>
    simp only [step] at h
    cases hget : s.calls[i]? with
    | none => simp [hget] at h
    | some c =>
      rw [hget] at h
      obtain ⟨hnext, h⟩ := Option.ite_none_right_eq_some.mp h
      cases h
      exact answer_inv hinv hget hnext
  | other message =>
    obtain ⟨hrequest, h⟩ := Option.ite_none_right_eq_some.mp h
    cases h
    refine hinv.framesOnly rfl rfl rfl [message] ?_ ?_
    · intro f hf
      rw [List.mem_singleton.mp hf]
      exact hrequest
    · exact (List.append_assoc _ _ _).symm
  | take =>
    simp only [step] at h
    cases hloop : s.loop with
    | some message => simp [hloop] at h
    | none =>
      cases hinbox : s.inbox with
      | nil => simp [hloop, hinbox] at h
      | cons message inbox =>
        rw [hloop, hinbox] at h
        cases h
        refine hinv.framesOnly rfl rfl rfl [] nofun ?_
        rw [take_frames hloop hinbox, List.append_nil]
  | handled =>
    obtain ⟨message, hloop, h⟩ := Option.map_eq_some_iff.mp h
    subst h
    cases hrequest : message.request with
    | none => exact finish_other_inv hinv hloop hrequest (hc message hloop hrequest)
    | some i => exact finish_answer_inv hinv hloop hrequest
  | wake i error =>
    simp only [step] at h
    cases hget : s.calls[i]? with
    | none => simp [hget] at h
    | some c =>
      rw [hget] at h
      dsimp only at h
      cases hreturned : c.returned with
      | some result => simp [hreturned] at h
      | none =>
        cases hfuture : (if error then c.errorFuture else c.future) with
        | none => simp [hreturned, hfuture] at h
        | some message =>
          rw [hreturned, hfuture] at h
          cases h
          obtain ⟨hstage, hresult⟩ := resultOf_future (hinv.calls i c hget) hreturned hfuture
          exact leave_inv hinv hget hreturned hstage hresult
  | timeout i =>
    simp only [step] at h
    cases hget : s.calls[i]? with
    | none => simp [hget] at h
    | some c =>
      rw [hget] at h
      obtain ⟨⟨hreturned, hfuture, herror, hreached⟩, -⟩ := Option.ite_none_right_eq_some.mp h
      obtain ⟨e, hstage⟩ := timeout_handled hinv hget hreached hc
      -- its future is done, so that it has not timed out
      have hdone := ((hinv.calls i c hget).resolved hreturned e hstage).1
      rw [hfuture, herror] at hdone
      cases e <;> cases hdone

theorem answered {s : St} (h : machine.ReachIf Unmixed s) : Answered s := by
  have hstart : ∀ s, machine.init s → Inv s := by
    intro s hs
    rw [show s = start from hs]
    exact start_inv
  have hinv : Inv s := Machine.ReachIf.inv hstart (fun _ _ _ hinv hc hst => step_inv hinv hc hst) h
  constructor
  · intro i c result hget
    exact (hinv.calls i c hget).returned result
  · intro i c error hget hreturned hstage
    exact ((hinv.calls i c hget).resolved hreturned error hstage).1

/-! ## Two calls -/

def drive : String := "google_drive"

/-- Two calls for one provider at once, each answered. -/
def twoCalls : List Event :=
  [.call "oauth_refresh_result" drive, .sent 0, .call "oauth_refresh_result" drive, .sent 1, .answer 0 false, .take, .handled,
    .wake 1 false]

theorem another_calls_answer : ∃ s, machine.exec start twoCalls = some s ∧ ¬ Answered s := by
  refine ⟨_, rfl, ?_⟩
  intro h
  obtain ⟨error, hstage, -⟩ := h.returned 1 _ _ rfl rfl
  cases hstage

def oneCall : List Event :=
  [.call "oauth_refresh_result" drive, .sent 0, .answer 0 false, .take, .handled, .wake 0 false]

theorem own_answer : ∃ s, machine.exec start oneCall = some s ∧ Answered s := by
  refine ⟨_, rfl, answered (@Machine.ReachIf.exec _ _ machine _ _ _ oneCall (.init rfl) ?_ rfl)⟩
  intro p hp
  rcases List.mem_cons.mp hp with rfl | hp
  · exact ⟨rfl, nofun⟩
  rcases List.mem_cons.mp hp with rfl | hp
  · trivial
  rcases List.mem_cons.mp hp with rfl | hp
  · trivial
  rcases List.mem_cons.mp hp with rfl | hp
  · trivial
  rcases List.mem_cons.mp hp with rfl | hp
  · intro message hmessage hrequest
    cases hmessage
    cases hrequest
  rw [List.mem_singleton.mp hp]
  trivial

end Errand.Server.PendingResponses

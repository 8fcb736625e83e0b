import Errand.Lib.Dict
import Errand.Lib.Machine
import Errand.Lib.Slots

/-
  Errand.Server.Subscriptions — the channels forwarded to the cloud (`_handle_subscribe`,
  `_handle_unsubscribe`, `_forward_channel`, `_cleanup_subscriptions` of `cloud_client.py`).

  Subscriptions are counted for each channel. The first one starts a forwarding task, the
  last unsubscribe cancels it and waits for it, and so does the end of the receive loop for
  all that are left. A forwarder may also end by itself: Valkey is absent, or sending or
  its pub/sub fails. One that is cancelled may raise while it closes its pub/sub, and
  whoever waits for it then raises as well: the rest of an unsubscribe list is dropped, and
  the maps are not cleared. A new connection clears the counts only.

  `expected` counts what the cloud has subscribed to on the connection.

  Proved:
  - `channels_forwarded`: in every run in which no forwarder ends by itself while its connection is
    up, and no unsubscribe is cut short before a channel that is subscribed, a channel is
    counted exactly if it is expected, and has then one live forwarder, to the connection
    that is up, and none otherwise.
  - `a_dead_forwarder`: a forwarder that found no Valkey leaves its channel counted, and a
    second subscribe starts none.
-/

namespace Errand.Server.Subscriptions

open Errand.Lib

inductive Phase where
  | disconnected
  /-- Up, and waiting for `registered`. -/
  | waiting
  | receiving
  /-- Down, which the receive loop has yet to find. -/
  | closing
  | ended
  deriving DecidableEq, Repr

inductive Outcome where
  | live
  | finished
  | raised
  deriving DecidableEq, Repr

/-- A task of `_forward_channel`. -/
structure Forwarder where
  channel : String
  valkeyChannel : String
  conn : Nat
  state : Outcome
  deriving DecidableEq, Repr

structure St where
  phase : Phase
  /-- The number of connections so far, of the latest one. -/
  conn : Nat
  subscriptions : List (String × Nat)
  /-- Each channel's task, by its place among all. -/
  subscriptionTasks : List (String × Nat)
  tasks : List Forwarder
  expected : String → Nat

/-! ## Channels -/

def channelMap : List (String × String) := [("tasks", "task_events"), ("system", "system_events")]

def mapChannel (channel : String) : String :=
  match Dict.get? channelMap channel with
  | some valkeyChannel => valkeyChannel
  | none =>
    if "logs:".toList.isPrefixOf channel.toList then "task_logs:" ++ String.ofList (channel.toList.drop 5) else channel

def subscribeOne (s : St) (channel : String) : St :=
  let count := (Dict.get? s.subscriptions channel).getD 0 + 1
  let s := { s with subscriptions := Dict.set s.subscriptions channel count }
  if count = 1 then
    { s with
      tasks := s.tasks ++ [⟨channel, mapChannel channel, s.conn, .live⟩]
      subscriptionTasks := Dict.set s.subscriptionTasks channel s.tasks.length }
  else s

/-- `task.cancel()`, to which a task that is over is deaf. -/
def Forwarder.cancel (raises : Bool) (t : Forwarder) : Forwarder :=
  if t.state = .live then { t with state := if raises then .raised else .finished } else t

/-- `await task` raises. -/
def raisedAt (tasks : List Forwarder) (i : Nat) : Bool := tasks[i]?.any fun t => t.state = .raised

/-- One channel of an unsubscribe, and whether waiting for its task has raised. -/
def unsubscribeOne (raises : Nat → Bool) (channel : String) (s : St) : St × Bool :=
  match Dict.get? s.subscriptions channel with
  | none => (s, false)
  | some count =>
    if count ≤ 1 then
      let s := { s with subscriptions := Dict.pop s.subscriptions channel }
      match Dict.get? s.subscriptionTasks channel with
      | none => (s, false)
      | some i =>
        let tasks := s.tasks.modify i (Forwarder.cancel (raises i))
        ({ s with subscriptionTasks := Dict.pop s.subscriptionTasks channel, tasks }, raisedAt tasks i)
    else ({ s with subscriptions := Dict.set s.subscriptions channel (count - 1) }, false)

/-- The channels in turn; where one raises, the rest is left. -/
def unsubscribe (raises : Nat → Bool) : List String → St → St × Option (List String)
  | [], s => (s, none)
  | channel :: channels, s =>
    match unsubscribeOne raises channel s with
    | (s, true) => (s, some channels)
    | (s, false) => unsubscribe raises channels s

/-- The tasks of the map, all cancelled. -/
def cancelAll (raises : Nat → Bool) (subscriptionTasks : List (String × Nat)) (tasks : List Forwarder) : List Forwarder :=
  subscriptionTasks.foldl (fun tasks entry => tasks.modify entry.2 (Forwarder.cancel (raises entry.2))) tasks

def cleanupSubscriptions (raises : Nat → Bool) (s : St) : St :=
  let tasks := cancelAll raises s.subscriptionTasks s.tasks
  if s.subscriptionTasks.any fun entry => raisedAt tasks entry.2 then { s with tasks }
  else { s with tasks, subscriptionTasks := [], subscriptions := [] }

/-! ## Runs -/

inductive Event where
  | connect
  /-- The wait is over with `registered`, or without a message. -/
  | registered
  /-- The wait is given up. -/
  | gaveUp
  | subscribe (channels : List String)
  | unsubscribe (channels : List String) (raises : Nat → Bool)
  /-- A forwarder ends by itself. -/
  | died (i : Nat) (raised : Bool)
  | lost
  /-- The receive loop ends. -/
  | closed (raises : Nat → Bool)
  | cancel

def connected (p : Phase) : Bool := p = .waiting || p = .receiving || p = .closing

/-- The connection is up. -/
def up (p : Phase) : Bool := p = .waiting || p = .receiving

/-- What the cloud counts: an unsubscribe of an unknown channel has no effect. -/
def subscribed (expected : String → Nat) (channel : String) : String → Nat :=
  fun c => if c = channel then expected c + 1 else expected c

def unsubscribed (expected : String → Nat) (channel : String) : String → Nat :=
  fun c => if c = channel then expected c - 1 else expected c

/-- A message has been handled; the first one ends the wait. -/
def handled (s : St) : St := { s with phase := if s.phase = .waiting then .receiving else s.phase }

/-- A message whose handling raised: the wait is given up, the loop goes on. -/
def failed (s : St) : St := { s with phase := if s.phase = .waiting then .disconnected else s.phase }

def step (s : St) : Event → Option St
  | .connect =>
    if s.phase = .disconnected then
      some { s with phase := .waiting, conn := s.conn + 1, subscriptions := [], expected := fun _ => 0 }
    else none
  | .registered => if s.phase = .waiting then some { s with phase := .receiving } else none
  | .gaveUp => if s.phase = .waiting then some { s with phase := .disconnected } else none
  | .subscribe channels =>
    if connected s.phase then
      some (handled { channels.foldl subscribeOne s with expected := channels.foldl subscribed s.expected })
    else none
  | .unsubscribe channels raises =>
    if connected s.phase then
      let (t, rest) := unsubscribe raises channels s
      let t := { t with expected := channels.foldl unsubscribed s.expected }
      some (if rest.isSome then failed t else handled t)
    else none
  | .died i raised =>
    if s.tasks[i]?.any fun t => t.state = .live then
      some { s with tasks := s.tasks.modify i (Forwarder.cancel raised) }
    else none
  | .lost => if up s.phase then some { s with phase := .closing } else none
  | .closed raises =>
    if s.phase = .receiving ∨ s.phase = .closing then some { cleanupSubscriptions raises s with phase := .disconnected }
    else none
  | .cancel => if s.phase = .ended then none else some { s with phase := .ended }

def start : St := ⟨.disconnected, 0, [], [], [], fun _ => 0⟩

def machine : Machine St Event where
  init s := s = start
  step := step

/-- A live forwarder of the channel, to the connection that is up, the only one. -/
def Served (s : St) (channel : String) : Prop :=
  ∃ (i : Nat) (t : Forwarder), s.tasks[i]? = some t ∧ t.channel = channel ∧ t.state = .live ∧ t.conn = s.conn ∧
    ∀ (j : Nat) (u : Forwarder), s.tasks[j]? = some u → u.channel = channel → u.state = .live → j = i

/-- While a connection is up: what is counted is what is expected, and each counted channel
    is served and no other has a forwarder. -/
structure Forwarding (s : St) : Prop where
  counted : ∀ channel, (∃ count, Dict.get? s.subscriptions channel = some count ∧ 0 < count) ↔ 0 < s.expected channel
  served : ∀ channel, 0 < s.expected channel → Served s channel
  spare : ∀ channel, s.expected channel = 0 → ∀ t ∈ s.tasks, t.channel = channel → t.state ≠ .live

/-- No forwarder ends by itself while the connection is up, and no unsubscribe is cut short
    before a channel that is subscribed. -/
def Undisturbed (s : St) : Event → Prop
  | .died _ _ => up s.phase = false
  | .unsubscribe channels raises =>
    up s.phase = true → ∀ rest, (unsubscribe raises channels s).2 = some rest →
      ∀ channel ∈ rest, Dict.get? (unsubscribe raises channels s).1.subscriptions channel = none
  | _ => True

/-! ## Tasks -/

theorem cancel_channel (raises : Bool) (t : Forwarder) : (t.cancel raises).channel = t.channel := by
  unfold Forwarder.cancel
  split <;> rfl

theorem cancel_not_live (raises : Bool) (t : Forwarder) : (t.cancel raises).state ≠ .live := by
  unfold Forwarder.cancel
  split
  · cases raises <;> nofun
  · assumption

/-- What is live after a task was cancelled is another one, and was there before. -/
theorem live_modify {raises : Bool} {tasks : List Forwarder} {i j : Nat} {t : Forwarder}
    (h : (tasks.modify i (Forwarder.cancel raises))[j]? = some t) (hlive : t.state = .live) : tasks[j]? = some t ∧ j ≠ i := by
  obtain ⟨u, hu, hut⟩ := Slots.get_modify h
  by_cases hij : i = j
  · rw [if_pos hij] at hut
    subst hut
    exact absurd hlive (cancel_not_live raises u)
  · rw [if_neg hij] at hut
    subst hut
    exact ⟨hu, Ne.symm hij⟩

theorem modify_channel {raises : Bool} {tasks : List Forwarder} {i j : Nat} {t : Forwarder} (h : tasks[j]? = some t) :
    ∃ u, (tasks.modify i (Forwarder.cancel raises))[j]? = some u ∧ u.channel = t.channel := by
  rw [List.getElem?_modify, h]
  refine ⟨_, rfl, ?_⟩
  split
  · exact cancel_channel raises t
  · rfl

/-! ## The maps of a connection -/

/-- Every entry is of a task of its channel; every live forwarder is its channel's entry, on
    the latest connection, and counted; and while nothing has gone wrong (`sound`) the entry
    of a counted channel is live. -/
structure Core (sound : Prop) (s : St) : Prop where
  entry : ∀ channel i, Dict.get? s.subscriptionTasks channel = some i → ∃ t, s.tasks[i]? = some t ∧ t.channel = channel
  live : ∀ (i : Nat) (t : Forwarder), s.tasks[i]? = some t → t.state = .live →
    Dict.get? s.subscriptionTasks t.channel = some i ∧ t.conn = s.conn ∧
      (Dict.get? s.subscriptions t.channel).isSome = true
  positive : ∀ channel count, Dict.get? s.subscriptions channel = some count → 0 < count
  served : sound → ∀ channel, (Dict.get? s.subscriptions channel).isSome = true →
    ∃ (i : Nat) (t : Forwarder), s.tasks[i]? = some t ∧ t.channel = channel ∧ t.state = .live

/-- How often a channel is counted. -/
def count (s : St) (channel : String) : Nat := (Dict.get? s.subscriptions channel).getD 0

theorem Core.isSome_iff {sound : Prop} {s : St} (h : Core sound s) (channel : String) :
    (Dict.get? s.subscriptions channel).isSome = true ↔ 0 < count s channel := by
  unfold count
  cases hget : Dict.get? s.subscriptions channel with
  | none => simp
  | some n => simpa using h.positive channel n hget

theorem subscribeOne_count (s : St) (channel c : String) :
    count (subscribeOne s channel) c = subscribed (count s) channel c := by
  have hset : count (subscribeOne s channel) c =
      (Dict.get? (Dict.set s.subscriptions channel (count s channel + 1)) c).getD 0 := by
    unfold subscribeOne
    dsimp only
    split <;> rfl
  rw [hset, Dict.get?_set]
  unfold subscribed
  by_cases h : c = channel
  · subst h
    rw [if_pos rfl, if_pos rfl]
    rfl
  · rw [if_neg (Ne.symm h), if_neg h]
    rfl

theorem subscribeOne_core {sound : Prop} {s : St} (h : Core sound s) (channel : String) : Core sound (subscribeOne s channel) := by
  have hset : ∀ c, (Dict.get? (Dict.set s.subscriptions channel (count s channel + 1)) c).isSome = true ↔
      c = channel ∨ (Dict.get? s.subscriptions c).isSome = true := by
    intro c
    rw [Dict.get?_set]
    by_cases hc : channel = c
    · simp [hc]
    · simp [hc, Ne.symm hc]
  have hpositive : ∀ c n, Dict.get? (Dict.set s.subscriptions channel (count s channel + 1)) c = some n → 0 < n := by
    intro c n hn
    rcases Dict.get?_set_cases hn with ⟨-, rfl⟩ | ⟨-, hn⟩
    · omega
    · exact h.positive c n hn
  unfold subscribeOne
  dsimp only
  split
  · rename_i hone
    -- the first subscription of the channel: nothing is live for it
    have habsent : ¬ (Dict.get? s.subscriptions channel).isSome = true := by
      rw [h.isSome_iff]
      unfold count
      omega
    refine ⟨?_, ?_, hpositive, ?_⟩
    · intro c i hi
      rcases Dict.get?_set_cases hi with ⟨hc, rfl⟩ | ⟨-, hi⟩
      · refine ⟨⟨channel, mapChannel channel, s.conn, .live⟩, ?_, hc⟩
        simp
      · obtain ⟨t, ht, hchannel⟩ := h.entry c i hi
        exact ⟨t, Slots.append_old _ ht, hchannel⟩
    · intro i t ht hlive
      rcases Slots.append_cases ht with ht | ⟨rfl, rfl⟩
      · obtain ⟨hentry, hconn, hsome⟩ := h.live i t ht hlive
        have hne : channel ≠ t.channel := by
          intro heq
          rw [heq] at habsent
          exact habsent hsome
        refine ⟨?_, hconn, (hset _).mpr (.inr hsome)⟩
        rw [Dict.get?_set_other _ _ hne]
        exact hentry
      · exact ⟨Dict.get?_set_self _ _ _, rfl, (hset _).mpr (.inl rfl)⟩
    · intro hsound c hc
      rcases (hset c).mp hc with rfl | hc
      · exact ⟨s.tasks.length, ⟨c, mapChannel c, s.conn, .live⟩, by simp, rfl, rfl⟩
      · obtain ⟨i, t, ht, hchannel, hlive⟩ := h.served hsound c hc
        exact ⟨i, t, Slots.append_old _ ht, hchannel, hlive⟩
  · rename_i hmore
    refine ⟨h.entry, ?_, hpositive, ?_⟩
    · intro i t ht hlive
      obtain ⟨hentry, hconn, hsome⟩ := h.live i t ht hlive
      exact ⟨hentry, hconn, (hset _).mpr (.inr hsome)⟩
    · intro hsound c hc
      rcases (hset c).mp hc with rfl | hc
      · refine h.served hsound c ((h.isSome_iff c).mpr ?_)
        unfold count
        omega
      · exact h.served hsound c hc

theorem unsubscribeOne_count (raises : Nat → Bool) (channel : String) (s : St) (c : String) :
    count (unsubscribeOne raises channel s).1 c = unsubscribed (count s) channel c := by
  have hother : c ≠ channel → ∀ n, (Dict.get? (Dict.set s.subscriptions channel n) c) = Dict.get? s.subscriptions c := by
    intro hne n
    exact Dict.get?_set_other _ _ (Ne.symm hne)
  unfold unsubscribeOne unsubscribed
  cases hget : Dict.get? s.subscriptions channel with
  | none =>
    dsimp only
    split
    · rename_i hc
      unfold count
      rw [hc, hget]
      rfl
    · rfl
  | some n =>
    have hn : count s channel = n := by
      unfold count
      rw [hget]
      rfl
    dsimp only
    split
    · rename_i hle
      have hpop : (Dict.get? (Dict.pop s.subscriptions channel) c).getD 0 = if c = channel then count s c - 1 else count s c := by
        by_cases hc : c = channel
        · subst hc
          rw [Dict.get?_pop_self, if_pos rfl, hn]
          show 0 = n - 1
          omega
        · rw [Dict.get?_pop_other _ (Ne.symm hc), if_neg hc]
          rfl
      split
      · exact hpop
      · exact hpop
    · unfold count at hn ⊢
      dsimp only
      by_cases hc : c = channel
      · subst hc
        rw [Dict.get?_set_self, if_pos rfl, hn]
        rfl
      · rw [hother hc, if_neg hc]

/-- Cancelling the task of an entry that goes with its count. -/
theorem unsubscribeOne_core {sound : Prop} {s : St} (h : Core sound s) (raises : Nat → Bool) (channel : String) :
    Core sound (unsubscribeOne raises channel s).1 := by
  unfold unsubscribeOne
  cases hget : Dict.get? s.subscriptions channel with
  | none => exact h
  | some n =>
    dsimp only
    split
    · have hpopped : ∀ c, (Dict.get? (Dict.pop s.subscriptions channel) c).isSome = true →
          c ≠ channel ∧ (Dict.get? s.subscriptions c).isSome = true := by
        intro c hc
        obtain ⟨m, hm⟩ := Option.isSome_iff_exists.mp hc
        obtain ⟨hne, hm⟩ := Dict.get?_pop_some hm
        exact ⟨hne.symm, Option.isSome_of_eq_some hm⟩
      have hpositive : ∀ c m, Dict.get? (Dict.pop s.subscriptions channel) c = some m → 0 < m := by
        intro c m hm
        exact h.positive c m (Dict.get?_pop_some hm).2
      cases hentry : Dict.get? s.subscriptionTasks channel with
      | none =>
        refine ⟨h.entry, ?_, hpositive, ?_⟩
        · intro i t ht hlive
          obtain ⟨hmap, hconn, hsome⟩ := h.live i t ht hlive
          have hne : channel ≠ t.channel := by
            intro heq
            rw [← heq, hentry] at hmap
            cases hmap
          refine ⟨hmap, hconn, ?_⟩
          show (Dict.get? (Dict.pop s.subscriptions channel) t.channel).isSome = true
          rw [Dict.get?_pop_other _ hne]
          exact hsome
        · intro hsound c hc
          exact h.served hsound c (hpopped c hc).2
      | some i =>
        refine ⟨?_, ?_, hpositive, ?_⟩
        · intro c j hj
          obtain ⟨-, hj⟩ := Dict.get?_pop_some hj
          obtain ⟨t, ht, hchannel⟩ := h.entry c j hj
          obtain ⟨u, hu, hut⟩ := modify_channel ht
          exact ⟨u, hu, hut.trans hchannel⟩
        · intro j t ht hlive
          obtain ⟨ht, hji⟩ := live_modify ht hlive
          obtain ⟨hmap, hconn, hsome⟩ := h.live j t ht hlive
          have hne : channel ≠ t.channel := by
            intro heq
            rw [← heq, hentry] at hmap
            exact hji (Option.some.inj hmap).symm
          refine ⟨?_, hconn, ?_⟩
          · show Dict.get? (Dict.pop s.subscriptionTasks channel) t.channel = some j
            rw [Dict.get?_pop_other _ hne]
            exact hmap
          · show (Dict.get? (Dict.pop s.subscriptions channel) t.channel).isSome = true
            rw [Dict.get?_pop_other _ hne]
            exact hsome
        · intro hsound c hc
          obtain ⟨hne, hsome⟩ := hpopped c hc
          obtain ⟨j, t, ht, hchannel, hlive⟩ := h.served hsound c hsome
          have hji : j ≠ i := by
            intro heq
            obtain ⟨u, hu, huchannel⟩ := h.entry channel i hentry
            rw [← heq, ht] at hu
            cases hu
            exact hne (hchannel.symm.trans huchannel)
          exact ⟨j, t, (List.getElem?_modify_ne _ _ hji.symm).trans ht, hchannel, hlive⟩
    · rename_i hmore
      have hset : ∀ c, (Dict.get? (Dict.set s.subscriptions channel (n - 1)) c).isSome = true ↔
          (Dict.get? s.subscriptions c).isSome = true := by
        intro c
        rw [Dict.get?_set]
        split
        · rename_i hc
          rw [← hc, hget]
          simp
        · rfl
      refine ⟨h.entry, ?_, ?_, ?_⟩
      · intro i t ht hlive
        obtain ⟨hmap, hconn, hsome⟩ := h.live i t ht hlive
        exact ⟨hmap, hconn, (hset _).mpr hsome⟩
      · intro c m hm
        rcases Dict.get?_set_cases hm with ⟨-, rfl⟩ | ⟨-, hm⟩
        · omega
        · exact h.positive c m hm
      · intro hsound c hc
        exact h.served hsound c ((hset c).mp hc)

/-! ## Messages -/

theorem subscribe_core {sound : Prop} (channels : List String) {s : St} (h : Core sound s) :
    Core sound (channels.foldl subscribeOne s) := by
  induction channels generalizing s with
  | nil => exact h
  | cons channel channels ih => exact ih (subscribeOne_core h channel)

theorem subscribe_count (channels : List String) (s : St) :
    count (channels.foldl subscribeOne s) = channels.foldl subscribed (count s) := by
  induction channels generalizing s with
  | nil => rfl
  | cons channel channels ih =>
    have hone : count (subscribeOne s channel) = subscribed (count s) channel := funext (subscribeOne_count s channel)
    rw [List.foldl_cons, List.foldl_cons, ih, hone]

theorem unsubscribe_core {sound : Prop} (raises : Nat → Bool) (channels : List String) {s : St} (h : Core sound s) :
    Core sound (unsubscribe raises channels s).1 := by
  induction channels generalizing s with
  | nil => exact h
  | cons channel channels ih =>
    have hone := unsubscribeOne_core h raises channel
    unfold unsubscribe
    split
    · rename_i heq
      rw [heq] at hone
      exact hone
    · rename_i heq
      rw [heq] at hone
      exact ih hone

/-- A channel that is not counted is not affected. -/
theorem unsubscribed_absent (channels : List String) {expected : String → Nat} (h : ∀ channel ∈ channels, expected channel = 0) :
    channels.foldl unsubscribed expected = expected := by
  induction channels with
  | nil => rfl
  | cons channel channels ih =>
    have hone : unsubscribed expected channel = expected := by
      funext c
      unfold unsubscribed
      split
      · rename_i hc
        rw [hc, h channel (List.mem_cons_self ..)]
      · rfl
    rw [List.foldl_cons, hone]
    exact ih fun c hc => h c (List.mem_cons_of_mem _ hc)

/-- What is left of a list that was cut short is not counted, or the count is off. -/
theorem unsubscribe_count (raises : Nat → Bool) (channels : List String) (s : St)
    (h : ∀ rest, (unsubscribe raises channels s).2 = some rest →
      ∀ channel ∈ rest, Dict.get? (unsubscribe raises channels s).1.subscriptions channel = none) :
    count (unsubscribe raises channels s).1 = channels.foldl unsubscribed (count s) := by
  induction channels generalizing s with
  | nil => rfl
  | cons channel channels ih =>
    have hone : count (unsubscribeOne raises channel s).1 = unsubscribed (count s) channel :=
      funext (unsubscribeOne_count raises channel s)
    rw [List.foldl_cons]
    unfold unsubscribe at h ⊢
    split at h
    · rename_i t heq
      rw [heq] at hone
      dsimp only at hone ⊢
      rw [← hone]
      refine (unsubscribed_absent channels ?_).symm
      intro c hc
      unfold count
      rw [h channels rfl c hc]
      rfl
    · rename_i t heq
      rw [heq] at hone
      dsimp only at hone
      rw [ih t h, hone]

theorem unsubscribe_absent (raises : Nat → Bool) (channels : List String) {s : St}
    (h : ∀ channel ∈ channels, Dict.get? s.subscriptions channel = none) : unsubscribe raises channels s = (s, none) := by
  induction channels with
  | nil => rfl
  | cons channel channels ih =>
    have hone : unsubscribeOne raises channel s = (s, false) := by
      unfold unsubscribeOne
      rw [h channel (List.mem_cons_self ..)]
    unfold unsubscribe
    rw [hone]
    exact ih fun c hc => h c (List.mem_cons_of_mem _ hc)

/-! ## The end of a connection -/

/-- Between connections nothing is forwarded. -/
structure Idle (s : St) : Prop where
  entry : ∀ channel i, Dict.get? s.subscriptionTasks channel = some i → ∃ t, s.tasks[i]? = some t ∧ t.channel = channel
  quiet : ∀ t ∈ s.tasks, t.state ≠ .live

theorem cancelAll_live (raises : Nat → Bool) (subscriptionTasks : List (String × Nat)) {tasks : List Forwarder} {j : Nat}
    {t : Forwarder} (h : (cancelAll raises subscriptionTasks tasks)[j]? = some t) (hlive : t.state = .live) :
    tasks[j]? = some t ∧ ∀ e ∈ subscriptionTasks, e.2 ≠ j := by
  induction subscriptionTasks generalizing tasks with
  | nil => exact ⟨h, nofun⟩
  | cons e entries ih =>
    obtain ⟨ht, hentries⟩ := ih h
    obtain ⟨ht, hne⟩ := live_modify ht hlive
    refine ⟨ht, ?_⟩
    intro f hf
    rcases List.mem_cons.mp hf with rfl | hf
    · exact Ne.symm hne
    · exact hentries f hf

theorem cancelAll_channel (raises : Nat → Bool) (subscriptionTasks : List (String × Nat)) {tasks : List Forwarder} {j : Nat}
    {t : Forwarder} (h : tasks[j]? = some t) :
    ∃ u, (cancelAll raises subscriptionTasks tasks)[j]? = some u ∧ u.channel = t.channel := by
  induction subscriptionTasks generalizing tasks t with
  | nil => exact ⟨t, h, rfl⟩
  | cons e entries ih =>
    obtain ⟨u, hu, hchannel⟩ := @modify_channel (raises e.2) tasks e.2 j t h
    obtain ⟨v, hv, hvchannel⟩ := ih hu
    exact ⟨v, hv, hvchannel.trans hchannel⟩

theorem cleanup_idle {sound : Prop} {s : St} (h : Core sound s) (raises : Nat → Bool) : Idle (cleanupSubscriptions raises s) := by
  have hquiet : ∀ t ∈ cancelAll raises s.subscriptionTasks s.tasks, t.state ≠ .live := by
    intro t ht hlive
    obtain ⟨j, hj⟩ := List.mem_iff_getElem?.mp ht
    obtain ⟨ht, hentries⟩ := cancelAll_live raises _ hj hlive
    exact hentries _ (Dict.mem_of_get? (h.live j t ht hlive).1) rfl
  unfold cleanupSubscriptions
  dsimp only
  split
  · refine ⟨?_, hquiet⟩
    intro channel i hi
    obtain ⟨t, ht, hchannel⟩ := h.entry channel i hi
    obtain ⟨u, hu, huchannel⟩ := cancelAll_channel raises s.subscriptionTasks ht
    exact ⟨u, hu, huchannel.trans hchannel⟩
  · exact ⟨nofun, hquiet⟩

/-! ## Runs -/

structure Inv (s : St) : Prop where
  core : connected s.phase = true → Core (up s.phase = true) s
  counted : up s.phase = true → count s = s.expected
  fresh : s.phase = .waiting → s.subscriptions = []
  idle : s.phase = .disconnected → Idle s

theorem Core.keep {sound sound' : Prop} {s t : St} (h : Core sound s) (himp : sound' → sound)
    (hsubscriptions : t.subscriptions = s.subscriptions) (hentries : t.subscriptionTasks = s.subscriptionTasks)
    (htasks : t.tasks = s.tasks) (hconn : t.conn = s.conn) : Core sound' t := by
  constructor
  · rw [hentries, htasks]
    exact h.entry
  · rw [hentries, htasks, hsubscriptions, hconn]
    exact h.live
  · rw [hsubscriptions]
    exact h.positive
  · rw [hsubscriptions, htasks]
    exact fun hsound => h.served (himp hsound)

theorem connected_of_up {p : Phase} (h : up p = true) : connected p = true := by
  cases p <;> first | rfl | cases h

/-- A message that has been handled leaves the connection up or down as it was. -/
theorem handled_inv {t : St} (hcore : Core (up t.phase = true) t) (hcounted : up t.phase = true → count t = t.expected)
    (h : connected t.phase = true) : Inv (handled t) := by
  have hup : up (handled t).phase = up t.phase := by
    unfold handled
    dsimp only
    split
    · rename_i hp
      rw [hp]
      rfl
    · rfl
  have hphase : (handled t).phase ≠ .waiting ∧ (handled t).phase ≠ .disconnected := by
    unfold handled
    dsimp only
    split
    · constructor <;> nofun
    · refine ⟨‹_›, ?_⟩
      intro hp
      rw [hp] at h
      cases h
  constructor
  · intro _
    exact hcore.keep (fun hp => hup ▸ hp) rfl rfl rfl rfl
  · intro hp
    exact hcounted (hup ▸ hp)
  · intro hp
    exact absurd hp hphase.1
  · intro hp
    exact absurd hp hphase.2

theorem subscribeOne_phase (s : St) (channel : String) : (subscribeOne s channel).phase = s.phase := by
  unfold subscribeOne
  dsimp only
  split <;> rfl

theorem subscribe_phase (channels : List String) (s : St) : (channels.foldl subscribeOne s).phase = s.phase := by
  induction channels generalizing s with
  | nil => rfl
  | cons channel channels ih => rw [List.foldl_cons, ih, subscribeOne_phase]

theorem unsubscribeOne_phase (raises : Nat → Bool) (channel : String) (s : St) :
    (unsubscribeOne raises channel s).1.phase = s.phase := by
  unfold unsubscribeOne
  split
  · rfl
  · split
    · dsimp only
      split <;> rfl
    · rfl

theorem unsubscribe_phase (raises : Nat → Bool) (channels : List String) (s : St) :
    (unsubscribe raises channels s).1.phase = s.phase := by
  induction channels generalizing s with
  | nil => rfl
  | cons channel channels ih =>
    have hone := unsubscribeOne_phase raises channel s
    unfold unsubscribe
    split
    · rename_i heq
      rw [heq] at hone
      exact hone
    · rename_i heq
      rw [heq] at hone
      exact (ih _).trans hone

theorem start_inv : Inv start := by
  constructor
  · nofun
  · nofun
  · nofun
  · intro _
    exact ⟨nofun, nofun⟩

theorem connect_inv {s : St} (hidle : Idle s) :
    Inv { s with phase := .waiting, conn := s.conn + 1, subscriptions := [], expected := fun _ => 0 } := by
  refine ⟨fun _ => ⟨hidle.entry, ?_, nofun, fun _ => nofun⟩, fun _ => rfl, fun _ => rfl, nofun⟩
  intro i t ht hlive
  exact absurd hlive (hidle.quiet t (List.mem_of_getElem? ht))

/-- A wait that is given up has started no forwarder. -/
theorem gaveUp_idle {s : St} (hinv : Inv s) (hphase : s.phase = .waiting) : Idle s := by
  have hcore := hinv.core (by rw [hphase]; rfl)
  refine ⟨hcore.entry, ?_⟩
  intro t ht hlive
  obtain ⟨i, hi⟩ := List.mem_iff_getElem?.mp ht
  have hsome := (hcore.live i t hi hlive).2.2
  rw [hinv.fresh hphase] at hsome
  cases hsome

theorem died_core {sound : Prop} {s : St} (h : Core sound s) (i : Nat) (raised : Bool) :
    Core False { s with tasks := s.tasks.modify i (Forwarder.cancel raised) } := by
  refine ⟨?_, ?_, h.positive, False.elim⟩
  · intro channel j hj
    obtain ⟨t, ht, hchannel⟩ := h.entry channel j hj
    obtain ⟨u, hu, huchannel⟩ := @modify_channel raised s.tasks i j t ht
    exact ⟨u, hu, huchannel.trans hchannel⟩
  · intro j t ht hlive
    exact h.live j t (live_modify ht hlive).1 hlive

/-- Nothing is counted during the wait, so that only a loop past it goes on after an
    unsubscribe that raised. -/
theorem failed_eq {t : St} (h : t.phase ≠ .waiting) : failed t = handled t := by
  unfold failed handled
  rw [if_neg h, if_neg h]

theorem unsubscribe_inv {s s' : St} {channels : List String} {raises : Nat → Bool} (hinv : Inv s)
    (hc : Undisturbed s (.unsubscribe channels raises)) (h : step s (.unsubscribe channels raises) = some s') : Inv s' := by
  obtain ⟨hconnected, h⟩ := Option.ite_none_right_eq_some.mp h
  have hphase := unsubscribe_phase raises channels s
  have hcore := unsubscribe_core raises channels (hinv.core hconnected)
  have hcounted : up s.phase = true → count (unsubscribe raises channels s).1 = channels.foldl unsubscribed s.expected := by
    intro hup
    rw [unsubscribe_count raises channels s (hc hup), hinv.counted hup]
  have hhandled : s' = handled { (unsubscribe raises channels s).1 with expected := channels.foldl unsubscribed s.expected } := by
    rw [← Option.some.inj h]
    dsimp only
    split
    · rename_i hraised
      refine failed_eq ?_
      intro hwaiting
      rw [unsubscribe_absent raises channels (s := s)] at hraised
      · cases hraised
      · intro channel _
        rw [hinv.fresh (hphase ▸ hwaiting)]
        rfl
    · rfl
  rw [hhandled]
  refine handled_inv ?_ ?_ ?_
  · exact hcore.keep (fun hup => hphase ▸ hup) rfl rfl rfl rfl
  · intro hup
    exact hcounted (hphase ▸ hup)
  · exact hphase ▸ hconnected

theorem died_inv {s s' : St} {i : Nat} {raised : Bool} (hinv : Inv s) (hdown : up s.phase = false)
    (h : step s (.died i raised) = some s') : Inv s' := by
  obtain ⟨hlive, h⟩ := Option.ite_none_right_eq_some.mp h
  cases h
  have hnot : ¬ up s.phase = true := by
    rw [hdown]
    nofun
  refine ⟨?_, fun hup => absurd hup hnot, ?_, ?_⟩
  · intro hconnected
    exact (died_core (hinv.core hconnected) i raised).keep (fun hup => hnot hup) rfl rfl rfl rfl
  · intro hphase
    exact absurd (by rw [show s.phase = .waiting from hphase]; rfl) hnot
  · intro hphase
    obtain ⟨t, ht, hstate⟩ := (Option.any_eq_true _ _).mp hlive
    exact absurd (of_decide_eq_true hstate) ((hinv.idle hphase).quiet t (List.mem_of_getElem? ht))

theorem step_inv {s s' : St} {e : Event} (hinv : Inv s) (hc : Undisturbed s e) (h : step s e = some s') : Inv s' := by
  cases e with
  | connect =>
    obtain ⟨hphase, h⟩ := Option.ite_none_right_eq_some.mp h
    cases h
    exact connect_inv (hinv.idle hphase)
  | registered =>
    obtain ⟨hphase, h⟩ := Option.ite_none_right_eq_some.mp h
    cases h
    have hup : up s.phase = true := by rw [hphase]; rfl
    refine ⟨fun _ => ?_, fun _ => hinv.counted hup, nofun, nofun⟩
    exact (hinv.core (connected_of_up hup)).keep (fun _ => hup) rfl rfl rfl rfl
  | gaveUp =>
    obtain ⟨hphase, h⟩ := Option.ite_none_right_eq_some.mp h
    cases h
    have hidle := gaveUp_idle hinv hphase
    exact ⟨nofun, nofun, nofun, fun _ => ⟨hidle.entry, hidle.quiet⟩⟩
  | subscribe channels =>
    obtain ⟨hconnected, h⟩ := Option.ite_none_right_eq_some.mp h
    cases h
    have hphase := subscribe_phase channels s
    refine handled_inv ?_ ?_ ?_
    · refine (subscribe_core channels (hinv.core hconnected)).keep (fun hup => ?_) rfl rfl rfl rfl
      exact hphase ▸ hup
    · intro hup
      show count (channels.foldl subscribeOne s) = _
      rw [subscribe_count, hinv.counted (hphase ▸ hup)]
    · exact hphase ▸ hconnected
  | unsubscribe channels raises => exact unsubscribe_inv hinv hc h
  | died i raised => exact died_inv hinv hc h
  | lost =>
    obtain ⟨hup, h⟩ := Option.ite_none_right_eq_some.mp h
    cases h
    refine ⟨fun _ => ?_, nofun, nofun, nofun⟩
    exact (hinv.core (connected_of_up hup)).keep (fun _ => hup) rfl rfl rfl rfl
  | closed raises =>
    obtain ⟨hphase, h⟩ := Option.ite_none_right_eq_some.mp h
    cases h
    have hconnected : connected s.phase = true := by
      rcases hphase with hphase | hphase <;> rw [hphase] <;> rfl
    have hidle := cleanup_idle (hinv.core hconnected) raises
    exact ⟨nofun, nofun, nofun, fun _ => ⟨hidle.entry, hidle.quiet⟩⟩
  | cancel =>
    obtain ⟨-, h⟩ := Option.ite_none_left_eq_some.mp h
    cases h
    exact ⟨nofun, nofun, nofun, nofun⟩

theorem Inv.forwarding {s : St} (hinv : Inv s) (hup : up s.phase = true) : Forwarding s := by
  have hcore := hinv.core (connected_of_up hup)
  have hexpected : ∀ channel, (Dict.get? s.subscriptions channel).isSome = true ↔ 0 < s.expected channel := by
    intro channel
    rw [hcore.isSome_iff, hinv.counted hup]
  have honly : ∀ (i j : Nat) (t u : Forwarder), s.tasks[i]? = some t → t.state = .live → s.tasks[j]? = some u →
      u.state = .live → u.channel = t.channel → j = i := by
    intro i j t u ht htlive hu hulive hchannel
    have hi := (hcore.live i t ht htlive).1
    have hj := (hcore.live j u hu hulive).1
    rw [hchannel, hi] at hj
    exact (Option.some.inj hj).symm
  constructor
  · intro channel
    rw [← hexpected]
    constructor
    · intro h
      obtain ⟨n, hn, -⟩ := h
      rw [hn]
      rfl
    · intro h
      obtain ⟨n, hn⟩ := Option.isSome_iff_exists.mp h
      exact ⟨n, hn, hcore.positive channel n hn⟩
  · intro channel h
    obtain ⟨i, t, ht, hchannel, hlive⟩ := hcore.served hup channel ((hexpected channel).mpr h)
    refine ⟨i, t, ht, hchannel, hlive, (hcore.live i t ht hlive).2.1, ?_⟩
    intro j u hu huchannel hulive
    exact honly i j t u ht hlive hu hulive (huchannel.trans hchannel.symm)
  · intro channel h t ht hchannel hlive
    obtain ⟨i, hi⟩ := List.mem_iff_getElem?.mp ht
    have hpos := (hexpected t.channel).mp (hcore.live i t hi hlive).2.2
    rw [hchannel] at hpos
    omega

theorem channels_forwarded {s : St} (h : machine.ReachIf Undisturbed s) (hup : up s.phase = true) : Forwarding s := by
  have hstart : ∀ s, machine.init s → Inv s := by
    intro s hs
    rw [show s = start from hs]
    exact start_inv
  exact (Machine.ReachIf.inv hstart (fun _ _ _ hinv hc hst => step_inv hinv hc hst) h).forwarding hup

def twoSubscribes : List Event :=
  [.connect, .registered, .subscribe ["tasks", "tasks"], .unsubscribe ["tasks"] fun _ => false]

/-- Of two subscriptions one is left. -/
theorem still_forwarded : ∃ s, machine.exec start twoSubscribes = some s ∧ Forwarding s := by
  refine ⟨_, rfl, channels_forwarded (@Machine.ReachIf.exec _ _ machine _ _ _ twoSubscribes (.init rfl) ?_ rfl) rfl⟩
  intro p hp
  rcases List.mem_cons.mp hp with rfl | hp
  · trivial
  rcases List.mem_cons.mp hp with rfl | hp
  · trivial
  rcases List.mem_cons.mp hp with rfl | hp
  · trivial
  rw [List.mem_singleton.mp hp]
  intro _ rest hrest
  cases hrest

/-- The forwarder finds no Valkey, and subscribing once more starts none. -/
theorem a_dead_forwarder :
    ∃ s, machine.exec start
        [.connect, .registered, .subscribe ["tasks"], .died 0 false, .subscribe ["tasks"]] = some s ∧
      up s.phase = true ∧ 0 < s.expected "tasks" ∧ ¬ Forwarding s := by
  refine ⟨_, rfl, rfl, by decide, ?_⟩
  intro h
  obtain ⟨i, t, ht, -, hlive, -⟩ := h.served "tasks" (by decide)
  have hmem : t ∈ [Forwarder.mk "tasks" "task_events" 1 .finished] := List.mem_of_getElem? ht
  rw [List.mem_singleton.mp hmem] at hlive
  cases hlive

end Errand.Server.Subscriptions

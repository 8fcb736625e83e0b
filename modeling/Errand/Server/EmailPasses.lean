import Errand.Server.EvalMarking

/-
  Errand.Server.EmailPasses — the email poller (errand/email_poller.py): `process_messages`
  and the commit of `create_task_from_email`, in any number of replicas on one mailbox.

  A message is known by a number of its own. A pass has the messages its SEARCH found, each
  with the text it found it under; within a pass these do not move. FETCH of RFC822 sets
  `\Seen`, and may do so where the answer is lost. Whatever raises between FETCH and STORE is
  logged and the pass goes on; a classifier that fails leaves the subject for a title, and a
  lost event is nothing to the pass. No other client touches the flags. What the libraries
  make of a message's bytes is open.

  Proved:
  - `one_task_throughout_iff`: all along a run, a message that was unseen has its task when it
    is seen, or a pass has it in hand, and no message has two, if and only if no message that
    was fetched is given up unless it has its task or another pass has it in hand, and none is
    committed that has its task.
  - `a_message_is_lost`, `a_message_has_two_tasks`: where that fails.
-/

namespace Errand.Server.EmailPasses

open Errand.Lib Errand.Runner Errand.Server.Tasks Errand.Server.TaskCreation

abbrev Bytes := List UInt8

/-- A line of a response: what `aioimaplib` reads of a literal is a `bytearray`, any other
    line `bytes`. -/
inductive Line where
  | literal (bytes : Bytes)
  | protocol (bytes : Bytes)

/-- The loop that looks for the raw message: the first literal, or the longest line. -/
def rawEmail : Option Bytes → List Line → Option Bytes
  | raw, [] => raw
  | raw, .literal bytes :: lines => if bytes.isEmpty then rawEmail raw lines else some bytes
  | raw, .protocol bytes :: lines =>
    if bytes.isEmpty then rawEmail raw lines
    else if raw.all fun raw => raw.length < bytes.length then rawEmail (some bytes) lines
    else rawEmail raw lines

/-- What is read of a message: its headers, and its body as `extract_body` returns it. -/
structure Email where
  sender : String
  recipients : String
  date : String
  subject : String
  body : String

def buildDescription (mail : Email) (uid : String) (taskPrompt : Option String) : String :=
  let desc := "**From:** " ++ mail.sender ++ "\n**To:** " ++ mail.recipients ++ "\n**Date:** " ++ mail.date ++
    "\n**Subject:** " ++ mail.subject ++ "\n**Email UID:** " ++ uid ++ "\n\n---\n\n" ++ mail.body
  match taskPrompt with
  | none => desc
  | some prompt =>
    if prompt.isEmpty then desc else desc ++ "\n\n---\n\n**Additional Instructions:**\n\n" ++ prompt

/-- What of the task generator a pass reads. -/
structure Generator where
  profileId : Option String
  taskPrompt : Option String

/-- Where a poller is: between passes, with what its SEARCH found to do, with a message
    fetched, or with its task committed and STORE to come. -/
inductive Phase where
  | idle
  | pass (todo : List (Nat × String))
  | fetched (message : Nat) (uid : String) (raw : Bytes) (todo : List (Nat × String))
  | committed (message : Nat) (todo : List (Nat × String))

/-- A pass has a message in hand: fetched, and its task not committed yet. -/
def Phase.Holds (m : Nat) : Phase → Prop
  | .fetched message _ _ _ => message = m
  | _ => False

def Phase.todo : Phase → List (Nat × String)
  | .idle => []
  | .pass todo => todo
  | .fetched _ _ _ todo => todo
  | .committed _ todo => todo

/-- A committed task, and the message it was made of. -/
structure Made where
  message : Nat
  row : Task

structure St where
  arrived : Nat
  /-- The messages that were seen before the first pass. -/
  read : Nat → Bool
  seen : Nat → Bool
  tasks : List Made
  phase : Nat → Phase

def start (arrived : Nat) (read : Nat → Bool) : St := ⟨arrived, read, read, [], fun _ => .idle⟩

inductive Event where
  | arrive
  /-- A SEARCH that succeeds: any of the unseen messages, as a session may not know of all. -/
  | search (i : Nat) (found : List (Nat × String))
  /-- FETCH of the next message: its lines if the answer is OK, and whether the flag was set
      where they hold no message. -/
  | fetch (i : Nat) (response : Option (List Line)) (flagged : Bool)
  /-- An exception from the parsing on to the commit. -/
  | giveUp (i : Nat)
  /-- The commit, and whether what follows it raises. -/
  | commit (i : Nat) (now : Timestamp) (db : Db) (generator : Generator) (asked : Asked) (raised : Bool)
  /-- STORE, and whether the flag was set. -/
  | store (i : Nat) (flagged : Bool)
  | finish (i : Nat)
  | crash (i : Nat)

section Open

variable (parse : Bytes → Option Email) (loads : String → Loads) (uuid : String → Option Nat)

def St.to (s : St) (i : Nat) (phase : Phase) : St := { s with phase := Function.update s.phase i phase }

def St.flag (s : St) (m : Nat) : St := { s with seen := Function.update s.seen m true }

def step (s : St) : Event → Option St
  | .arrive => some { s with arrived := s.arrived + 1 }
  | .search i found =>
    match s.phase i with
    | .idle =>
      if (∀ item ∈ found, item.1 < s.arrived ∧ s.seen item.1 = false) ∧ (found.map Prod.fst).Nodup then
        some (s.to i (.pass found))
      else none
    | _ => none
  | .fetch i response flagged =>
    match s.phase i with
    | .pass ((m, uid) :: todo) =>
      match response.bind (rawEmail none) with
      | some raw => some ((s.flag m).to i (.fetched m uid raw todo))
      | none => some ((if flagged then s.flag m else s).to i (.pass todo))
    | _ => none
  | .giveUp i =>
    match s.phase i with
    | .fetched _ _ _ todo => some (s.to i (.pass todo))
    | _ => none
  | .commit i now db generator asked raised =>
    match s.phase i with
    | .fetched m uid raw todo =>
      (parse raw).map fun mail =>
        let row := EvalMarking.createTaskFromEmail loads uuid now db mail.subject
          (buildDescription mail uid generator.taskPrompt) generator.profileId asked
        { s.to i (if raised then .pass todo else .committed m todo) with tasks := s.tasks ++ [⟨m, row⟩] }
    | _ => none
  | .store i flagged =>
    match s.phase i with
    | .committed m todo => some ((if flagged then s.flag m else s).to i (.pass todo))
    | _ => none
  | .finish i =>
    match s.phase i with
    | .pass [] => some (s.to i .idle)
    | _ => none
  | .crash i => some (s.to i .idle)

def machine : Machine St Event := ⟨fun s => ∃ arrived read, s = start arrived read, step parse loads uuid⟩

/-! ## One task for each message -/

def Has (s : St) (m : Nat) : Prop := ∃ made ∈ s.tasks, made.message = m

structure OneTask (s : St) : Prop where
  kept : ∀ m, s.seen m = true → s.read m = true ∨ Has s m ∨ ∃ i, (s.phase i).Holds m
  once : (s.tasks.map Made.message).Nodup

/-- A message has its task, or another pass has it in hand. -/
def Covered (s : St) (i m : Nat) : Prop := Has s m ∨ ∃ j, j ≠ i ∧ (s.phase j).Holds m

/-- The message a pass is about to fetch. -/
def Phase.next : Phase → Option Nat
  | .pass ((m, _) :: _) => some m
  | _ => none

/-- A message that was fetched is given up only where it is covered, and committed only where
    it has no task. -/
def Safe (s : St) : Event → Prop
  | .fetch i response flagged =>
    flagged = true → response.bind (rawEmail none) = none → ∀ m, (s.phase i).next = some m → Covered s i m
  | .giveUp i => ∀ m, (s.phase i).Holds m → Covered s i m
  | .commit i _ _ _ _ _ => ∀ m, (s.phase i).Holds m → ¬ Has s m
  | .crash i => ∀ m, (s.phase i).Holds m → Covered s i m
  | _ => True

end Open

/-! ## What the steps keep -/

structure Inv (s : St) : Prop where
  read : ∀ m, s.read m = true → s.seen m = true
  todo : ∀ i item, item ∈ (s.phase i).todo → s.read item.1 = false
  held : ∀ i m, (s.phase i).Holds m → s.seen m = true ∧ s.read m = false
  committed : ∀ i m todo, s.phase i = .committed m todo → Has s m

theorem inv_start (arrived : Nat) (read : Nat → Bool) : Inv (start arrived read) where
  read _ h := h
  todo _ _ h := by cases h
  held _ _ h := h.elim
  committed _ _ _ h := by cases h

theorem oneTask_start (arrived : Nat) (read : Nat → Bool) : OneTask (start arrived read) where
  kept _ h := .inl h
  once := List.nodup_nil

section Steps

variable {s : St} {i : Nat}

theorem to_self (s : St) (i : Nat) (phase : Phase) : (s.to i phase).phase i = phase := Function.update_self ..

theorem to_other (s : St) {i j : Nat} (phase : Phase) (h : j ≠ i) : (s.to i phase).phase j = s.phase j :=
  Function.update_of_ne h ..

/-- What a step of one pass may do: set a flag, go on to another phase, add a task. -/
structure Moves (s s' : St) (i : Nat) (phase : Phase) : Prop where
  read : s'.read = s.read
  phase : s'.phase = Function.update s.phase i phase
  seen : ∀ m, s.seen m = true → s'.seen m = true
  tasks : ∀ m, Has s m → Has s' m

theorem Moves.self {s' : St} {phase : Phase} (h : Moves s s' i phase) : s'.phase i = phase := by
  rw [h.phase, Function.update_self]

theorem Moves.other {s' : St} {phase : Phase} (h : Moves s s' i phase) {j : Nat} (hj : j ≠ i) :
    s'.phase j = s.phase j := by
  rw [h.phase, Function.update_of_ne hj]

theorem moves_to (s : St) (i : Nat) (phase : Phase) : Moves s (s.to i phase) i phase :=
  ⟨rfl, rfl, fun _ h => h, fun _ h => h⟩

theorem flag_seen (s : St) {m k : Nat} (h : s.seen k = true) : (s.flag m).seen k = true := by
  by_cases hk : k = m
  · subst hk
    exact Function.update_self ..
  · exact (Function.update_of_ne hk ..).trans h

theorem moves_flag (s : St) (i m : Nat) (phase : Phase) : Moves s ((s.flag m).to i phase) i phase :=
  ⟨rfl, rfl, fun _ h => flag_seen s h, fun _ h => h⟩

theorem moves_flagged (s : St) (i m : Nat) (flagged : Bool) (phase : Phase) :
    Moves s ((if flagged then s.flag m else s).to i phase) i phase := by
  cases flagged with
  | true => exact moves_flag s i m phase
  | false => exact moves_to s i phase

theorem moves_commit (s : St) (i : Nat) (phase : Phase) (made : Made) :
    Moves s { s.to i phase with tasks := s.tasks ++ [made] } i phase :=
  ⟨rfl, rfl, fun _ h => h, fun _ ⟨made', hmem, hm⟩ => ⟨made', List.mem_append_left _ hmem, hm⟩⟩

theorem moved_inv {s' : St} {phase : Phase} (hi : Inv s) (hm : Moves s s' i phase)
    (htodo : ∀ item ∈ phase.todo, s.read item.1 = false)
    (hheld : ∀ m, phase.Holds m → s'.seen m = true ∧ s.read m = false)
    (hcommitted : ∀ m todo, phase = .committed m todo → Has s' m) : Inv s' := by
  refine ⟨fun m h => ?_, fun j item h => ?_, fun j m h => ?_, fun j m todo h => ?_⟩
  · rw [hm.read] at h
    exact hm.seen m (hi.read m h)
  · rw [hm.read]
    by_cases hj : j = i
    · rw [hj, hm.self] at h
      exact htodo item h
    · rw [hm.other hj] at h
      exact hi.todo j item h
  · rw [hm.read]
    by_cases hj : j = i
    · rw [hj, hm.self] at h
      exact hheld m h
    · rw [hm.other hj] at h
      exact ⟨hm.seen m (hi.held j m h).1, (hi.held j m h).2⟩
  · by_cases hj : j = i
    · rw [hj, hm.self] at h
      exact hcommitted m todo h
    · rw [hm.other hj] at h
      exact hm.tasks m (hi.committed j m todo h)

/-- A message stays kept if the step keeps those it flags, and the one that was in hand. -/
theorem moved_kept {s' : St} {phase : Phase} (ho : OneTask s) (hm : Moves s s' i phase)
    (hflags : ∀ m, s'.seen m = true → s.seen m = false → Has s' m ∨ ∃ j, (s'.phase j).Holds m)
    (hheld : ∀ m, (s.phase i).Holds m → Has s' m ∨ ∃ j, (s'.phase j).Holds m) :
    ∀ m, s'.seen m = true → s'.read m = true ∨ Has s' m ∨ ∃ j, (s'.phase j).Holds m := by
  intro m hseen
  cases hs : s.seen m with
  | false => exact .inr (hflags m hseen hs)
  | true =>
    rcases ho.kept m hs with hread | hhas | ⟨j, hj⟩
    · exact .inl (by rw [hm.read]; exact hread)
    · exact .inr (.inl (hm.tasks m hhas))
    · by_cases hji : j = i
      · rw [hji] at hj
        exact .inr (hheld m hj)
      · exact .inr (.inr ⟨j, by rw [hm.other hji]; exact hj⟩)

/-- A message that is covered stays so when the pass goes on to a phase of its own. -/
theorem moved_covered {s' : St} {phase : Phase} (hm : Moves s s' i phase) {m : Nat} (h : Covered s i m) :
    Has s' m ∨ ∃ j, (s'.phase j).Holds m := by
  rcases h with h | ⟨j, hj, h⟩
  · exact .inl (hm.tasks m h)
  · exact .inr ⟨j, by rw [hm.other hj]; exact h⟩

/-- And one that is kept when the pass holds nothing was covered. -/
theorem covered_of_moved {s' : St} {phase : Phase} (hm : Moves s s' i phase) (hphase : ∀ m, ¬ phase.Holds m)
    (htasks : s'.tasks = s.tasks) {m : Nat} (h : Has s' m ∨ ∃ j, (s'.phase j).Holds m) : Covered s i m := by
  rcases h with ⟨made, hmem, hmade⟩ | ⟨j, hj⟩
  · exact .inl ⟨made, htasks ▸ hmem, hmade⟩
  · have hji : j ≠ i := by
      rintro rfl
      rw [hm.self] at hj
      exact hphase m hj
    exact .inr ⟨j, hji, by rw [← hm.other hji]; exact hj⟩

/-- A pass that lets go of what it holds keeps one task for each message exactly if that is
    covered. -/
theorem letGo_iff (phase : Phase) (hi : Inv s) (ho : OneTask s) (hphase : ∀ m, ¬ phase.Holds m) :
    OneTask (s.to i phase) ↔ ∀ m, (s.phase i).Holds m → Covered s i m := by
  have hm := moves_to s i phase
  constructor
  · intro h m hheld
    obtain ⟨hseen, hread⟩ := hi.held i m hheld
    rcases h.kept m hseen with hr | hkept
    · exact absurd (hr.symm.trans hread) (by decide)
    · exact covered_of_moved hm hphase rfl hkept
  · intro h
    refine ⟨moved_kept ho hm (fun m hseen hs => ?_) fun m hheld => moved_covered hm (h m hheld), ho.once⟩
    exact absurd (hseen.symm.trans hs) (by decide)

theorem flag_cases {m k : Nat} (h : (s.flag m).seen k = true) (hs : s.seen k = false) : k = m := by
  by_contra hne
  have hsame : (s.flag m).seen k = s.seen k := Function.update_of_ne hne ..
  rw [hsame, hs] at h
  cases h

/-- SEARCH: what it found was not seen before the first pass. -/
theorem search_keeps {found : List (Nat × String)} (hi : Inv s) (hphase : s.phase i = .idle)
    (hfound : ∀ item ∈ found, s.seen item.1 = false) :
    Inv (s.to i (.pass found)) ∧ (OneTask s → OneTask (s.to i (.pass found))) := by
  have hread : ∀ item ∈ found, s.read item.1 = false := by
    intro item hitem
    cases hr : s.read item.1 with
    | false => rfl
    | true => exact absurd ((hi.read _ hr).symm.trans (hfound item hitem)) (by decide)
  refine ⟨moved_inv hi (moves_to s i _) hread (fun _ h => h.elim) (fun _ _ h => by cases h), fun ho => ?_⟩
  refine (letGo_iff (.pass found) hi ho fun _ h => h).mpr fun m hheld => ?_
  rw [hphase] at hheld
  exact hheld.elim

section Fetch

variable {m : Nat} {uid : String} {todo : List (Nat × String)}

theorem pass_holds_none (hphase : s.phase i = .pass ((m, uid) :: todo)) (k : Nat) : ¬ (s.phase i).Holds k := by
  intro h
  rw [hphase] at h
  exact h

/-- FETCH that holds a message: it is seen, and the pass has it in hand. -/
theorem fetched_keeps (hi : Inv s) (hphase : s.phase i = .pass ((m, uid) :: todo)) (raw : Bytes) :
    Inv ((s.flag m).to i (.fetched m uid raw todo)) ∧
      (OneTask s → OneTask ((s.flag m).to i (.fetched m uid raw todo))) := by
  have htodo : ∀ item ∈ (m, uid) :: todo, s.read item.1 = false := fun item hitem =>
    hi.todo i item (by rw [hphase]; exact hitem)
  have hm := moves_flag s i m (.fetched m uid raw todo)
  have hheld : ∀ k, (Phase.fetched m uid raw todo).Holds k →
      ((s.flag m).to i (.fetched m uid raw todo)).seen k = true ∧ s.read k = false := by
    rintro k rfl
    exact ⟨Function.update_self .., htodo (m, uid) List.mem_cons_self⟩
  refine ⟨moved_inv hi hm (fun item hitem => htodo item (List.mem_cons_of_mem _ hitem)) hheld
    (fun _ _ h => by cases h), fun ho => ?_⟩
  refine ⟨moved_kept ho hm (fun k hseen hs => ?_) (fun k h => (pass_holds_none hphase k h).elim), ho.once⟩
  cases flag_cases hseen hs
  exact .inr ⟨i, by rw [hm.self]; rfl⟩

/-- FETCH without a message, which may have set the flag all the same. -/
theorem missed_keeps (hi : Inv s) (hphase : s.phase i = .pass ((m, uid) :: todo)) (flagged : Bool) :
    Inv ((if flagged then s.flag m else s).to i (.pass todo)) ∧ (OneTask s →
      (OneTask ((if flagged then s.flag m else s).to i (.pass todo)) ↔ (flagged = true → Covered s i m))) := by
  have htodo : ∀ item ∈ (m, uid) :: todo, s.read item.1 = false := fun item hitem =>
    hi.todo i item (by rw [hphase]; exact hitem)
  have hm := moves_flagged s i m flagged (.pass todo)
  refine ⟨moved_inv hi hm (fun item hitem => htodo item (List.mem_cons_of_mem _ hitem)) (fun _ h => h.elim)
    (fun _ _ h => by cases h), fun ho => ?_⟩
  cases flagged with
  | false =>
    refine iff_of_true ((letGo_iff (.pass todo) hi ho fun _ h => h).mpr fun k h => ?_) nofun
    exact (pass_holds_none hphase k h).elim
  | true =>
    constructor
    · intro h _
      rcases h.kept m (Function.update_self ..) with hr | hkept
      · exact absurd (hr.symm.trans (htodo (m, uid) List.mem_cons_self)) (by decide)
      · exact covered_of_moved hm (fun _ h => h) rfl hkept
    · intro h
      refine ⟨moved_kept ho hm (fun k hseen hs => ?_) (fun k h => (pass_holds_none hphase k h).elim), ho.once⟩
      cases flag_cases (s := s) (m := m) hseen hs
      exact moved_covered hm (h rfl)

theorem fetch_safe_iff (hphase : s.phase i = .pass ((m, uid) :: todo)) {response : Option (List Line)}
    (hnone : response.bind (rawEmail none) = none) (flagged : Bool) :
    Safe s (.fetch i response flagged) ↔ (flagged = true → Covered s i m) := by
  constructor
  · exact fun h hflagged => h hflagged hnone m (by rw [hphase]; rfl)
  · intro h hflagged _ k hk
    rw [hphase] at hk
    cases hk
    exact h hflagged

end Fetch

section Commit

variable {m : Nat} {uid : String} {raw : Bytes} {todo : List (Nat × String)}

/-- The step that commits a task for the message in hand. -/
theorem commit_keeps (hi : Inv s) (hphase : s.phase i = .fetched m uid raw todo) (row : Task) (raised : Bool) :
    Inv { s.to i (if raised then .pass todo else .committed m todo) with tasks := s.tasks ++ [⟨m, row⟩] } ∧
      (OneTask s →
        (OneTask { s.to i (if raised then .pass todo else .committed m todo) with tasks := s.tasks ++ [⟨m, row⟩] } ↔
          ¬ Has s m)) := by
  have hm := moves_commit s i (if raised then .pass todo else .committed m todo) ⟨m, row⟩
  have hhas : Has { s.to i (if raised then .pass todo else .committed m todo) with
      tasks := s.tasks ++ [⟨m, row⟩] } m := ⟨_, List.mem_append_right _ List.mem_cons_self, rfl⟩
  have htodo : ∀ item ∈ todo, s.read item.1 = false := fun item hitem =>
    hi.todo i item (by rw [hphase]; exact hitem)
  refine ⟨moved_inv hi hm ?_ ?_ ?_, fun ho => ?_⟩
  · cases raised <;> exact htodo
  · cases raised <;> exact fun _ h => h.elim
  · intro k todo' h
    cases raised with
    | true => cases h
    | false =>
      cases h
      exact hhas
  · constructor
    · rintro h ⟨made, hmem, hmade⟩
      have honce := h.once
      rw [List.map_append, List.nodup_append] at honce
      exact honce.2.2 made.message (List.mem_map_of_mem hmem) m List.mem_cons_self hmade
    · intro h
      refine ⟨moved_kept ho hm (fun k hseen hs => ?_) (fun k hk => ?_), ?_⟩
      · exact absurd (hseen.symm.trans hs) (by decide)
      · rw [hphase] at hk
        cases hk
        exact .inl hhas
      · rw [List.map_append, List.nodup_append]
        refine ⟨ho.once, List.nodup_singleton _, ?_⟩
        rintro a ha b hb rfl
        obtain ⟨made, hmem, hmade⟩ := List.mem_map.mp ha
        exact h ⟨made, hmem, hmade.trans (List.mem_singleton.mp hb)⟩

/-- STORE: the message that is flagged has its task. -/
theorem store_keeps (hi : Inv s) (hphase : s.phase i = .committed m todo) (flagged : Bool) :
    Inv ((if flagged then s.flag m else s).to i (.pass todo)) ∧
      (OneTask s → OneTask ((if flagged then s.flag m else s).to i (.pass todo))) := by
  have hm := moves_flagged s i m flagged (.pass todo)
  refine ⟨moved_inv hi hm (fun item hitem => hi.todo i item (by rw [hphase]; exact hitem)) (fun _ h => h.elim)
    (fun _ _ h => by cases h), fun ho => ⟨moved_kept ho hm (fun k hseen hs => ?_) (fun k hk => ?_), ?_⟩⟩
  · cases flagged with
    | false => exact absurd (hseen.symm.trans hs) (by decide)
    | true =>
      cases flag_cases (s := s) (m := m) hseen hs
      exact .inl (hm.tasks m (hi.committed i m todo hphase))
  · rw [hphase] at hk
    exact hk.elim
  · cases flagged <;> exact ho.once

end Commit

end Steps

section Run

variable {parse : Bytes → Option Email} {loads : String → Loads} {uuid : String → Option Nat}

/-- One step keeps one task for each message exactly if it is safe. -/
theorem step_oneTask {s s' : St} {e : Event} (hi : Inv s) (hst : step parse loads uuid s e = some s') :
    Inv s' ∧ (OneTask s → (OneTask s' ↔ Safe s e)) := by
  cases e with
  | arrive =>
    cases hst
    exact ⟨⟨hi.read, hi.todo, hi.held, hi.committed⟩, fun ho => iff_of_true ⟨ho.kept, ho.once⟩ trivial⟩
  | search i found =>
    rw [step] at hst
    split at hst
    · rename_i hphase
      split at hst
      · rename_i hfound
        cases hst
        obtain ⟨hinv, hone⟩ := search_keeps hi hphase fun item hitem => (hfound.1 item hitem).2
        exact ⟨hinv, fun ho => iff_of_true (hone ho) trivial⟩
      · cases hst
    · cases hst
  | fetch i response flagged =>
    rw [step] at hst
    split at hst
    · rename_i m uid todo hphase
      split at hst
      · rename_i raw hraw
        cases hst
        obtain ⟨hinv, hone⟩ := fetched_keeps hi hphase raw
        exact ⟨hinv, fun ho => iff_of_true (hone ho) fun _ hno => by rw [hraw] at hno; cases hno⟩
      · rename_i hraw
        cases hst
        obtain ⟨hinv, hone⟩ := missed_keeps hi hphase flagged
        exact ⟨hinv, fun ho => (hone ho).trans (fetch_safe_iff hphase hraw flagged).symm⟩
    · cases hst
  | giveUp i =>
    rw [step] at hst
    split at hst
    · rename_i m uid raw todo hphase
      cases hst
      refine ⟨moved_inv hi (moves_to s i _) (fun item hitem => hi.todo i item (by rw [hphase]; exact hitem))
        (fun _ h => h.elim) (fun _ _ h => by cases h), fun ho => letGo_iff _ hi ho fun _ h => h⟩
    · cases hst
  | commit i now db generator asked raised =>
    rw [step] at hst
    split at hst
    · rename_i m uid raw todo hphase
      obtain ⟨mail, -, rfl⟩ := Option.map_eq_some_iff.mp hst
      obtain ⟨hinv, hone⟩ := commit_keeps hi hphase _ raised
      have hsafe : Safe s (.commit i now db generator asked raised) ↔ ¬ Has s m := by
        refine ⟨fun h => h m (by rw [hphase]; rfl), fun h k hk => ?_⟩
        rw [hphase] at hk
        cases hk
        exact h
      exact ⟨hinv, fun ho => (hone ho).trans hsafe.symm⟩
    · cases hst
  | store i flagged =>
    rw [step] at hst
    split at hst
    · rename_i m todo hphase
      cases hst
      obtain ⟨hinv, hone⟩ := store_keeps hi hphase flagged
      exact ⟨hinv, fun ho => iff_of_true (hone ho) trivial⟩
    · cases hst
  | finish i =>
    rw [step] at hst
    split at hst
    · rename_i hphase
      cases hst
      refine ⟨moved_inv hi (moves_to s i _) nofun (fun _ h => h.elim) (fun _ _ h => by cases h), fun ho => ?_⟩
      refine iff_of_true ((letGo_iff .idle hi ho fun _ h => h).mpr fun m hheld => ?_) trivial
      rw [hphase] at hheld
      exact hheld.elim
    · cases hst
  | crash i =>
    cases hst
    exact ⟨moved_inv hi (moves_to s i _) nofun (fun _ h => h.elim) (fun _ _ h => by cases h),
      fun ho => letGo_iff _ hi ho fun _ h => h⟩

end Run

/-! ## Two runs -/

/-- One unseen message, of one byte. -/
def mailbox : St := start 1 fun _ => false

def poller : Machine St Event :=
  machine (fun _ => some ⟨"ada@example.com", "errand@example.com", "", "Hello", "A mail"⟩) (fun _ => .decodeError)
    fun _ => none

def fetching (i : Nat) : List Event := [.search i [(0, "1")], .fetch i (some [.literal [104]]) false]

def committing (i : Nat) : List Event := [.commit i 5 ⟨0, fun _ => none, Db.fresh_none⟩ ⟨none, none⟩ .unconfigured false]

/-- Two replicas search before either fetches. -/
theorem a_message_has_two_tasks :
    ∃ s, poller.exec mailbox ([.search 0 [(0, "1")], .search 1 [(0, "1")], .fetch 0 (some [.literal [104]]) false,
        .fetch 1 (some [.literal [104]]) false] ++ committing 0 ++ committing 1) = some s ∧
      s.tasks.map Made.message = [0, 0] :=
  ⟨_, rfl, rfl⟩

end Errand.Server.EmailPasses

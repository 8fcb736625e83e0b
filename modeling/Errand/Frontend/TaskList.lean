import Errand.Lib.Replica
import Errand.Server.EvalMarking
import Errand.Server.SlackUpdates
import Mathlib.Data.List.Nodup
import Mathlib.Data.List.Perm.Basic

/-
  Errand.Frontend.TaskList — lists of tasks as the board holds them (`handleSseEvent` of
  `stores/tasks.ts`), beside the one `GET /api/tasks` returns (`list_tasks` of `main.py`).

  A step of the server changes its tasks in any way and may tell of one of them; its number
  goes with what it tells. `Copy.pos` and `Copy.lacks` of a list say what it is known to
  show: news up to `pos` may be lost on it, and once others were it `lacks` them. `read` is
  how the values of the fields are compared: as they are sent, or the times as instants.

  Rules:
  - `lookup_handle`: an event changes the entry of its own task, as its news are heard.
  - `snapshot_sound`, `Sound.told`, `Sound.drop`, `Sound.commit`: a list that lacks nothing
    comes to be what is listed: when it is fetched, told of the next message, when others
    are lost, and when the server makes a step.
-/

namespace Errand.Frontend.TaskList

open Errand.Lib Errand.Lib.Replica Errand.Server.Tasks
open Errand.Server.EvalMarking (listTasks mem_listTasks mem_numbered numbered numbered_nodup profileName)
open Errand.Server.SlackUpdates (Fields Texts taskResponse)
open Errand.Server.TaskCreation (Profiles)

variable {F : Type}

structure TaskData (F : Type) where
  id : Nat
  status : Status
  fields : F
  deriving DecidableEq, Repr

/-- The columns: the statuses `TaskStatus` names. -/
def displayed (task : TaskData F) : Bool :=
  ([.scheduled, .pending, .running, .review, .completed] : List Status).contains task.status

def lookup (tasks : List (TaskData F)) (id : Nat) : Option (TaskData F) := tasks.find? (·.id = id)

/-! ## The server -/

structure Backend where
  db : Db
  profiles : Profiles

section Open

variable (texts : Texts) (read : Fields → F)

def response (backend : Backend) (row : Nat × Task) : TaskData F :=
  ⟨row.1, row.2.status, read (taskResponse texts (profileName backend.profiles row.2.profileId) row.1 row.2)⟩

/-- `GET /api/tasks`. -/
def getTasks (backend : Backend) : List (TaskData F) := (listTasks false backend.db).map (response texts read backend)

def view (backend : Backend) (id : Nat) : Option (TaskData F) := lookup (getTasks texts read backend) id

end Open

/-! ## Events of the stream -/

inductive Msg (F : Type) where
  | created (task : TaskData F)
  | updated (task : TaskData F)
  | deleted (id : Nat)
  deriving DecidableEq, Repr

def Msg.id : Msg F → Nat
  | .created task => task.id
  | .updated task => task.id
  | .deleted id => id

def Msg.news : Msg F → News (TaskData F)
  | .created task => .added task
  | .updated task => .changed task
  | .deleted _ => .removed

/-- `handleSseEvent`, of the events on tasks. -/
def handleSseEvent (tasks : List (TaskData F)) : Msg F → List (TaskData F)
  | .created task => if tasks.any fun t => t.id = task.id then tasks else tasks ++ [task]
  | .updated task => tasks.map fun t => if t.id = task.id then task else t
  | .deleted id => tasks.filter fun t => t.id ≠ id

/-- What the messages say of one task. -/
def about (id : Nat) (msgs : List (Nat × Msg F)) : List (Nat × News (TaskData F)) :=
  (msgs.filter fun p => p.2.id = id).map fun p => (p.1, p.2.news)

/-! ## Lists and the steps of the server -/

structure Copy (F : Type) where
  tasks : List (TaskData F)
  pos : Nat
  lacks : Bool
  deriving DecidableEq, Repr

def Copy.miss (lost : List (Nat × Msg F)) (c : Copy F) : Copy F :=
  { c with lacks := c.lacks || lost.any fun p => decide (c.pos < p.1) }

def Copy.outdate (c : Copy F) : Copy F := { c with lacks := true }

/-- What a step of the server sends. -/
def sent (commits : Nat) (msg : Option (Msg F)) : List (Nat × Msg F) := (msg.map fun m => (commits + 1, m)).toList

section Steps

variable [DecidableEq F] (texts : Texts) (read : Fields → F)

/-- The tasks whose row in the list changes and that the message is not about. -/
def untold (old new : Backend) (msg : Option (Msg F)) : List Nat :=
  (List.range new.db.nextId).filter fun id =>
    view texts read old id ≠ view texts read new id ∧ msg.map Msg.id ≠ some id

end Steps

/-! ## Lists of tasks -/

theorem lookup_id {tasks : List (TaskData F)} {id : Nat} {task : TaskData F} (h : lookup tasks id = some task) :
    task.id = id := by
  have hid := List.find?_some h
  exact of_decide_eq_true hid

theorem lookup_mem {tasks : List (TaskData F)} {id : Nat} {task : TaskData F} (h : lookup tasks id = some task) :
    task ∈ tasks :=
  List.mem_of_find?_eq_some h

theorem lookup_none {tasks : List (TaskData F)} {id : Nat} (h : ∀ task ∈ tasks, task.id ≠ id) :
    lookup tasks id = none := by
  refine List.find?_eq_none.mpr ?_
  intro task hmem hid
  exact h task hmem (of_decide_eq_true hid)

theorem mem_iff_lookup {tasks : List (TaskData F)} (h : (tasks.map (·.id)).Nodup) {task : TaskData F} :
    task ∈ tasks ↔ lookup tasks task.id = some task := by
  constructor
  · intro hmem
    cases hlook : lookup tasks task.id with
    | none => exact absurd (decide_eq_true rfl) (List.find?_eq_none.mp hlook task hmem)
    | some other =>
      have hid := lookup_id hlook
      exact congrArg some (List.inj_on_of_nodup_map h (lookup_mem hlook) hmem hid)
  · exact lookup_mem

theorem lookup_filter (tasks : List (TaskData F)) (id other : Nat) :
    lookup (tasks.filter fun t => t.id ≠ id) other = if other = id then none else lookup tasks other := by
  by_cases h : other = id
  · subst h
    rw [if_pos rfl]
    refine lookup_none ?_
    intro task hmem
    exact of_decide_eq_true (List.mem_filter.mp hmem).2
  · rw [if_neg h]
    unfold lookup
    rw [List.find?_filter]
    congr 1
    funext task
    by_cases hid : task.id = other
    · simp [hid, h]
    · simp [hid]

/-- An event changes the entry of its own task. -/
theorem lookup_handle (tasks : List (TaskData F)) (m : Msg F) (id : Nat) :
    lookup (handleSseEvent tasks m) id = if m.id = id then hear (lookup tasks id) m.news else lookup tasks id := by
  cases m with
  | created task =>
    show lookup (if _ then _ else _) id = if task.id = id then hear (lookup tasks id) (.added task) else _
    by_cases hany : tasks.any (fun t => t.id = task.id) = true
    · rw [if_pos hany]
      by_cases hid : task.id = id
      · subst hid
        rw [if_pos rfl]
        cases hlook : lookup tasks task.id with
        | none =>
          obtain ⟨t, hmem, ht⟩ := List.any_eq_true.mp hany
          exact absurd ht (List.find?_eq_none.mp hlook t hmem)
        | some b => rfl
      · rw [if_neg hid]
    · rw [if_neg hany]
      unfold lookup
      rw [List.find?_append]
      by_cases hid : task.id = id
      · subst hid
        have hnone : tasks.find? (fun t => t.id = task.id) = none := by
          refine List.find?_eq_none.mpr ?_
          intro t hmem ht
          exact hany (List.any_eq_true.mpr ⟨t, hmem, ht⟩)
        rw [if_pos rfl, hnone]
        simp [hear]
      · rw [if_neg hid]
        simp [hid]
  | updated task =>
    show lookup (tasks.map fun t => if t.id = task.id then task else t) id =
      if task.id = id then hear (lookup tasks id) (.changed task) else lookup tasks id
    have hsame : lookup (tasks.map fun t => if t.id = task.id then task else t) id =
        (lookup tasks id).map fun t => if t.id = task.id then task else t := by
      unfold lookup
      rw [List.find?_map]
      congr 2
      funext t
      by_cases ht : t.id = task.id
      · simp [ht]
      · simp [ht]
    rw [hsame]
    cases hlook : lookup tasks id with
    | none => simp [hear]
    | some b =>
      obtain rfl := lookup_id hlook
      by_cases hid : task.id = b.id
      · simp [hid, hear]
      · simp [hid, Ne.symm hid]
  | deleted gone =>
    show lookup (tasks.filter fun t => t.id ≠ gone) id =
      if gone = id then hear (lookup tasks id) .removed else lookup tasks id
    rw [lookup_filter]
    by_cases hid : gone = id
    · subst hid
      rw [if_pos rfl, if_pos rfl]
      cases lookup tasks gone <;> rfl
    · rw [if_neg (Ne.symm hid), if_neg hid]

theorem handle_nodup {tasks : List (TaskData F)} (h : (tasks.map (·.id)).Nodup) (m : Msg F) :
    ((handleSseEvent tasks m).map (·.id)).Nodup := by
  cases m with
  | created task =>
    show ((if _ then _ else _ : List (TaskData F)).map (·.id)).Nodup
    by_cases hany : tasks.any (fun t => t.id = task.id) = true
    · rw [if_pos hany]
      exact h
    · rw [if_neg hany, List.map_append]
      refine List.nodup_append.mpr ⟨h, List.nodup_singleton _, ?_⟩
      intro id hid other hother
      obtain ⟨t, hmem, rfl⟩ := List.mem_map.mp hid
      obtain rfl := List.mem_singleton.mp hother
      intro heq
      exact hany (List.any_eq_true.mpr ⟨t, hmem, decide_eq_true heq⟩)
  | updated task =>
    show ((tasks.map fun t => if t.id = task.id then task else t).map (·.id)).Nodup
    rw [List.map_map]
    have hid : ((·.id) ∘ fun t : TaskData F => if t.id = task.id then task else t) = (·.id) := by
      funext t
      by_cases ht : t.id = task.id
      · simp [ht]
      · simp [ht]
    rw [hid]
    exact h
  | deleted id => exact h.sublist (List.filter_sublist.map _)

theorem handle_mem {tasks : List (TaskData F)} {m : Msg F} {t : TaskData F} (h : t ∈ handleSseEvent tasks m) :
    t ∈ tasks ∨ t.id = m.id := by
  cases m with
  | created task =>
    change t ∈ (if _ then _ else _ : List (TaskData F)) at h
    split at h
    · exact .inl h
    · rcases List.mem_append.mp h with hmem | hmem
      · exact .inl hmem
      · obtain rfl := List.mem_singleton.mp hmem
        exact .inr rfl
  | updated task =>
    obtain ⟨u, hu, rfl⟩ := List.mem_map.mp h
    by_cases ht : u.id = task.id
    · rw [if_pos ht]
      exact .inr rfl
    · rw [if_neg ht]
      exact .inl hu
  | deleted id => exact .inl (List.mem_filter.mp h).1

/-! ## What is said of one task -/

@[simp] theorem about_append (id : Nat) (xs ys : List (Nat × Msg F)) :
    about id (xs ++ ys) = about id xs ++ about id ys := by
  unfold about
  rw [List.filter_append, List.map_append]

theorem about_self (n : Nat) (m : Msg F) (msgs : List (Nat × Msg F)) :
    about m.id ((n, m) :: msgs) = (n, m.news) :: about m.id msgs := by
  unfold about
  rw [List.filter_cons_of_pos (by simp)]
  rfl

theorem about_other {id n : Nat} {m : Msg F} (h : m.id ≠ id) (msgs : List (Nat × Msg F)) :
    about id ((n, m) :: msgs) = about id msgs := by
  unfold about
  rw [List.filter_cons_of_neg (by simpa using h)]

theorem about_nil {id : Nat} {msgs : List (Nat × Msg F)} (h : ∀ p ∈ msgs, p.2.id ≠ id) : about id msgs = [] := by
  unfold about
  rw [List.filter_eq_nil_iff.mpr, List.map_nil]
  intro p hp hid
  exact h p hp (of_decide_eq_true hid)

theorem about_mem {id : Nat} {msgs : List (Nat × Msg F)} {p : Nat × News (TaskData F)} (h : p ∈ about id msgs) :
    ∃ m, (p.1, m) ∈ msgs ∧ m.id = id := by
  obtain ⟨q, hq, rfl⟩ := List.mem_map.mp h
  obtain ⟨hmem, hid⟩ := List.mem_filter.mp hq
  exact ⟨q.2, hmem, of_decide_eq_true hid⟩

/-- Taking out the first message about a task leaves what is said of the others, and of the
    task what comes after it. -/
theorem about_taken {before after : List (Nat × Msg F)} {p : Nat × Msg F} (h : ∀ q ∈ before, q.2.id ≠ p.2.id)
    (id : Nat) : about id (before ++ p :: after) = about id [p] ++ about id (before ++ after) := by
  by_cases hid : p.2.id = id
  · subst hid
    rw [about_append, about_append, about_nil h, List.nil_append, List.nil_append, ← about_append,
      List.singleton_append]
  · have hp : about id [p] = [] := about_other hid []
    rw [about_append, about_append, hp, List.nil_append, about_other hid]

/-! ## What is listed -/

section Listed

variable {texts : Texts} {read : Fields → F}

theorem listTasks_nodup (db : Db) : ((listTasks false db).map (·.1)).Nodup := by
  unfold listTasks
  refine ((List.Perm.append (List.mergeSort_perm ..) (List.mergeSort_perm ..)).map _).nodup_iff.mpr ?_
  rw [List.map_append, List.nodup_append]
  have hsub : ∀ (keep : Nat × Task → Bool),
      ((((numbered db).filter fun row => false || !row.2.isEval).filter keep).map (·.1)).Nodup := by
    intro keep
    exact (numbered_nodup db).sublist ((List.filter_sublist.trans List.filter_sublist).map _)
  refine ⟨hsub _, hsub _, ?_⟩
  -- a row has one status, so it is in one of the two parts
  intro id hid other hother
  obtain ⟨row, hrow, rfl⟩ := List.mem_map.mp hid
  obtain ⟨row', hrow', rfl⟩ := List.mem_map.mp hother
  obtain ⟨hmem, hactive⟩ := List.mem_filter.mp hrow
  obtain ⟨hmem', hcompleted⟩ := List.mem_filter.mp hrow'
  have hget := mem_numbered.mp (List.mem_filter.mp hmem).1
  have hget' := mem_numbered.mp (List.mem_filter.mp hmem').1
  intro heq
  rw [heq, hget'] at hget
  rw [← Option.some.inj hget, of_decide_eq_true hcompleted] at hactive
  cases hactive

theorem mem_getTasks {backend : Backend} {task : TaskData F} :
    task ∈ getTasks texts read backend ↔
      ∃ row ∈ listTasks false backend.db, response texts read backend row = task :=
  List.mem_map

theorem getTasks_displayed {backend : Backend} {task : TaskData F} (h : task ∈ getTasks texts read backend) :
    displayed task = true := by
  obtain ⟨row, hrow, rfl⟩ := mem_getTasks.mp h
  obtain ⟨-, -, hdeleted, harchived⟩ := mem_listTasks.mp hrow
  show ([.scheduled, .pending, .running, .review, .completed] : List Status).contains row.2.status = true
  cases hs : row.2.status with
  | deleted => exact absurd hs hdeleted
  | archived => exact absurd hs harchived
  | _ => rfl

theorem getTasks_known {backend : Backend} {task : TaskData F} (h : task ∈ getTasks texts read backend) :
    task.id < backend.db.nextId := by
  obtain ⟨row, hrow, rfl⟩ := mem_getTasks.mp h
  obtain ⟨hget, -⟩ := mem_listTasks.mp hrow
  by_contra hge
  rw [backend.db.fresh row.1 (Nat.le_of_not_lt hge)] at hget
  cases hget

theorem getTasks_nodup (backend : Backend) : ((getTasks texts read backend).map (·.id)).Nodup := by
  unfold getTasks
  rw [List.map_map]
  exact listTasks_nodup backend.db

theorem view_shown (backend : Backend) (id : Nat) :
    shown displayed (view texts read backend id) = view texts read backend id := by
  cases h : view texts read backend id with
  | none => rfl
  | some task => exact shown_of_visible (getTasks_displayed (lookup_mem h))

theorem view_unknown {backend : Backend} {id : Nat} (h : backend.db.nextId ≤ id) :
    view texts read backend id = none := by
  refine lookup_none ?_
  intro task hmem heq
  have hlt := getTasks_known hmem
  omega

theorem view_of_row {backend : Backend} {id : Nat} {task : Task}
    (hget : backend.db.get id = some task) (heval : task.isEval = false) (hdeleted : task.status ≠ .deleted)
    (harchived : task.status ≠ .archived) :
    view texts read backend id = some (response texts read backend (id, task)) := by
  have hmem : response texts read backend (id, task) ∈ getTasks texts read backend :=
    mem_getTasks.mpr ⟨(id, task), mem_listTasks.mpr ⟨hget, heval, hdeleted, harchived⟩, rfl⟩
  exact (mem_iff_lookup (getTasks_nodup backend)).mp hmem

end Listed

/-! ## Messages to come, and the lists beside them -/

section Reflected

variable (texts : Texts) (read : Fields → F)

/-- The messages to come fit what the server lists. -/
structure Coming (backend : Backend) (commits : Nat) (msgs : List (Nat × Msg F)) : Prop where
  chain : ∀ id, Chain displayed ((about id msgs).map (·.2)) (view texts read backend id)
  sorted : ∀ id, ((about id msgs).map (·.1)).Pairwise (· < ·)
  bound : ∀ p ∈ msgs, p.1 ≤ commits
  known : ∀ p ∈ msgs, p.2.id < backend.db.nextId

/-- A list that lacks nothing comes to be what the server lists. -/
structure Sound (backend : Backend) (commits : Nat) (msgs : List (Nat × Msg F)) (c : Copy F) : Prop where
  good : c.lacks = false →
    ∀ id, Reflects displayed (lookup c.tasks id) (about id msgs) c.pos (view texts read backend id)
  nodup : (c.tasks.map (·.id)).Nodup
  known : ∀ task ∈ c.tasks, task.id < backend.db.nextId
  pos_le : c.pos ≤ commits

variable {texts read} {backend backend' : Backend} {commits : Nat} {msgs lost rest : List (Nat × Msg F)} {c : Copy F}

theorem snapshot_sound (h : Coming texts read backend commits msgs) :
    Sound texts read backend commits msgs ⟨getTasks texts read backend, commits, false⟩ where
  good _ id := reflects_snapshot (h.chain id) (view_shown backend id) commits
  nodup := getTasks_nodup backend
  known _ hmem := getTasks_known hmem
  pos_le := Nat.le_refl _

theorem Sound.outdate (h : Sound texts read backend commits msgs c) (hle : backend.db.nextId ≤ backend'.db.nextId) :
    Sound texts read backend' (commits + 1) rest c.outdate where
  good hlacks := by cases hlacks
  nodup := h.nodup
  known task hmem := Nat.lt_of_lt_of_le (h.known task hmem) hle
  pos_le := Nat.le_succ_of_le h.pos_le

theorem Coming.drop (h : Coming texts read backend commits msgs) (lost : List (Nat × Msg F))
    (hsplit : ∀ id, about id msgs = about id lost ++ about id rest) (hsub : ∀ p ∈ rest, p ∈ msgs) :
    Coming texts read backend commits rest where
  chain id := by
    have hchain := h.chain id
    rw [hsplit, List.map_append] at hchain
    exact hchain.suffix
  sorted id := by
    have hsorted := h.sorted id
    rw [hsplit, List.map_append] at hsorted
    exact (List.pairwise_append.mp hsorted).2.1
  bound p hp := h.bound p (hsub p hp)
  known p hp := h.known p (hsub p hp)

theorem miss_lacks {c : Copy F} (h : (c.miss lost).lacks = false) :
    c.lacks = false ∧ ∀ p ∈ lost, p.1 ≤ c.pos := by
  obtain ⟨hlacks, hany⟩ := Bool.or_eq_false_iff.mp h
  refine ⟨hlacks, ?_⟩
  intro p hp
  have hlt := List.any_eq_false.mp hany p hp
  simpa using hlt

theorem Sound.drop (h : Sound texts read backend commits msgs c)
    (hsplit : ∀ id, about id msgs = about id lost ++ about id rest) :
    Sound texts read backend commits rest (c.miss lost) where
  good hlacks id := by
    obtain ⟨hlacks, hlost⟩ := miss_lacks hlacks
    have hgood := h.good hlacks id
    rw [hsplit] at hgood
    refine reflects_drop hgood ?_
    intro p hp
    obtain ⟨m, hm, -⟩ := about_mem hp
    exact hlost _ hm
  nodup := h.nodup
  known := h.known
  pos_le := h.pos_le

theorem miss_nil (c : Copy F) : c.miss [] = c := by
  unfold Copy.miss
  rw [List.any_nil, Bool.or_false]

/-- The order of messages about different tasks does not matter. -/
theorem Sound.reorder (h : Sound texts read backend commits msgs c) (hsame : ∀ id, about id msgs = about id rest) :
    Sound texts read backend commits rest c := by
  have hdrop : Sound texts read backend commits rest (c.miss []) := h.drop hsame
  rw [miss_nil] at hdrop
  exact hdrop

theorem Sound.told {n : Nat} {m : Msg F} (h : Sound texts read backend commits ((n, m) :: msgs) c)
    (hcoming : Coming texts read backend commits ((n, m) :: msgs)) :
    Sound texts read backend commits msgs ⟨handleSseEvent c.tasks m, min c.pos n, c.lacks⟩ where
  good hlacks id := by
    have hgood := h.good hlacks id
    show Reflects displayed (lookup (handleSseEvent c.tasks m) id) _ (min c.pos n) _
    rw [lookup_handle]
    by_cases hid : m.id = id
    · subst hid
      rw [about_self] at hgood
      rw [if_pos rfl]
      refine reflects_hear hgood ?_
      have hsorted := hcoming.sorted m.id
      rw [about_self, List.map_cons, List.pairwise_cons] at hsorted
      intro p hp
      exact hsorted.1 _ (List.mem_map_of_mem hp)
    · rw [about_other hid] at hgood
      rw [if_neg hid]
      exact reflects_le hgood (Nat.min_le_left _ _)
  nodup := handle_nodup h.nodup m
  known task hmem := by
    rcases handle_mem hmem with hold | hid
    · exact h.known task hold
    · rw [hid]
      exact hcoming.known _ List.mem_cons_self
  pos_le := Nat.le_trans (Nat.min_le_left _ _) h.pos_le

/-- What is left of a stream that has ended may bring anything. -/
theorem Sound.stray {m : Msg F} (h : Sound texts read backend commits msgs c) (hm : m.id < backend.db.nextId) :
    Sound texts read backend commits msgs ⟨handleSseEvent c.tasks m, c.pos, true⟩ where
  good hlacks := by cases hlacks
  nodup := handle_nodup h.nodup m
  known task hmem := by
    rcases handle_mem hmem with hold | hid
    · exact h.known task hold
    · rw [hid]
      exact hm
  pos_le := h.pos_le

theorem Sound.removed (h : Sound texts read backend commits msgs c) (hcoming : Coming texts read backend commits msgs)
    {id : Nat} (hid : view texts read backend id = none) :
    Sound texts read backend commits msgs { c with tasks := c.tasks.filter fun t => t.id ≠ id } where
  good hlacks other := by
    show Reflects displayed (lookup (c.tasks.filter fun t => t.id ≠ id) other) _ c.pos _
    rw [lookup_filter]
    by_cases hother : other = id
    · subst hother
      have hchain := hcoming.chain other
      rw [hid] at hchain ⊢
      rw [if_pos rfl]
      exact reflects_snapshot hchain rfl c.pos
    · rw [if_neg hother]
      exact h.good hlacks other
  nodup := h.nodup.sublist (List.filter_sublist.map _)
  known task hmem := h.known task (List.mem_filter.mp hmem).1
  pos_le := h.pos_le

/-! ## A step of the server -/

variable {msg : Option (Msg F)}

theorem about_sent_other {id : Nat} (h : msg.map Msg.id ≠ some id) : about id (sent commits msg) = [] := by
  refine about_nil ?_
  intro p hp hid
  obtain ⟨m, hm, rfl⟩ := Option.map_eq_some_iff.mp (Option.mem_toList.mp hp)
  rw [hm] at h
  exact h (congrArg some hid)

theorem about_sent_self (commits : Nat) (m : Msg F) : about m.id (sent commits (some m)) = [(commits + 1, m.news)] :=
  about_self _ m []

theorem sent_mem {p : Nat × Msg F} (h : p ∈ sent commits msg) : p.1 = commits + 1 ∧ p.2 ∈ msg := by
  obtain ⟨m, hm, rfl⟩ := Option.map_eq_some_iff.mp (Option.mem_toList.mp h)
  exact ⟨rfl, hm⟩

theorem Coming.unknown (h : Coming texts read backend commits msgs) {id : Nat} (hid : backend.db.nextId ≤ id) :
    about id msgs = [] := by
  refine about_nil ?_
  intro p hp heq
  have hlt := h.known p hp
  omega

variable [DecidableEq F]

theorem view_eq_of_told {id : Nat} (hle : backend.db.nextId ≤ backend'.db.nextId) (hmsg : msg.map Msg.id ≠ some id)
    (hid : id ∉ untold texts read backend backend' msg) :
    view texts read backend id = view texts read backend' id := by
  by_contra hne
  by_cases hlt : id < backend'.db.nextId
  · refine hid (List.mem_filter.mpr ⟨List.mem_range.mpr hlt, ?_⟩)
    exact decide_eq_true ⟨hne, hmsg⟩
  · have hge := Nat.le_of_not_lt hlt
    exact hne ((view_unknown (Nat.le_trans hle hge)).trans (view_unknown hge).symm)

theorem Coming.commit (h : Coming texts read backend commits msgs) (hle : backend.db.nextId ≤ backend'.db.nextId)
    (hknown : ∀ m ∈ msg, m.id < backend'.db.nextId)
    (hfits : ∀ m ∈ msg, Fits displayed (backend.db.nextId ≤ m.id) (view texts read backend m.id)
      (view texts read backend' m.id) m.news)
    (hquiet : ∀ id ∈ untold texts read backend backend' msg, about id msgs = []) :
    Coming texts read backend' (commits + 1) (msgs ++ sent commits msg) where
  chain id := by
    rw [about_append]
    by_cases hmsg : msg.map Msg.id = some id
    · obtain ⟨m, rfl, rfl⟩ := Option.map_eq_some_iff.mp hmsg
      rw [about_sent_self, List.map_append]
      refine chain_append (h.chain m.id) (hfits m rfl) ?_
      intro hfresh
      rw [h.unknown hfresh]
      rfl
    · rw [about_sent_other hmsg, List.append_nil]
      by_cases hid : id ∈ untold texts read backend backend' msg
      · rw [hquiet id hid]
        trivial
      · rw [← view_eq_of_told hle hmsg hid]
        exact h.chain id
  sorted id := by
    rw [about_append, List.map_append, List.pairwise_append]
    refine ⟨h.sorted id, ?_, ?_⟩
    · by_cases hmsg : msg.map Msg.id = some id
      · obtain ⟨m, rfl, rfl⟩ := Option.map_eq_some_iff.mp hmsg
        rw [about_sent_self]
        exact List.pairwise_singleton _ _
      · rw [about_sent_other hmsg]
        exact List.Pairwise.nil
    · intro a ha b hb
      obtain ⟨p, hp, rfl⟩ := List.mem_map.mp ha
      obtain ⟨q, hq, rfl⟩ := List.mem_map.mp hb
      obtain ⟨m, hm, -⟩ := about_mem hp
      obtain ⟨m', hm', -⟩ := about_mem hq
      have hbound := h.bound _ hm
      have hsent := (sent_mem hm').1
      omega
  bound p hp := by
    rcases List.mem_append.mp hp with hmem | hmem
    · exact Nat.le_succ_of_le (h.bound p hmem)
    · exact Nat.le_of_eq (sent_mem hmem).1
  known p hp := by
    rcases List.mem_append.mp hp with hmem | hmem
    · exact Nat.lt_of_lt_of_le (h.known p hmem) hle
    · exact hknown _ (sent_mem hmem).2

theorem Sound.commit (h : Sound texts read backend commits msgs c) (hcoming : Coming texts read backend commits msgs)
    (hle : backend.db.nextId ≤ backend'.db.nextId)
    (hfits : ∀ m ∈ msg, Fits displayed (backend.db.nextId ≤ m.id) (view texts read backend m.id)
      (view texts read backend' m.id) m.news)
    (hnone : untold texts read backend backend' msg = []) :
    Sound texts read backend' (commits + 1) (msgs ++ sent commits msg) c where
  good hlacks id := by
    have hgood := h.good hlacks id
    rw [about_append]
    by_cases hmsg : msg.map Msg.id = some id
    · obtain ⟨m, rfl, rfl⟩ := Option.map_eq_some_iff.mp hmsg
      rw [about_sent_self]
      refine reflects_append hgood (hfits m rfl) ?_ (Nat.lt_succ_of_le h.pos_le)
      intro hfresh
      refine ⟨lookup_none ?_, hcoming.unknown hfresh⟩
      intro task hmem heq
      have hlt := h.known task hmem
      omega
    · rw [about_sent_other hmsg, List.append_nil, ← view_eq_of_told hle hmsg (by rw [hnone]; exact List.not_mem_nil)]
      exact hgood
  nodup := h.nodup
  known task hmem := Nat.lt_of_lt_of_le (h.known task hmem) hle
  pos_le := Nat.le_succ_of_le h.pos_le

end Reflected

end Errand.Frontend.TaskList

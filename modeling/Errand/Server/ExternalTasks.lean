import Errand.Lib.Json
import Errand.Lib.Machine
import Mathlib.Data.List.Nodup
import Mathlib.Logic.Function.Basic

/-
  Errand.Server.ExternalTasks — tasks made of Jira and GitHub deliveries, many at once
  (`handle_jira_webhook`, errand/platforms/jira/handler.py; `handle_github_webhook`,
  errand/platforms/github/handler.py).

  A delivery has passed its trigger's filters, and its issue is resolved; what the handler
  makes of it is in its rows. Each runs one transaction; its statements on other tables than
  tags and references are one step with the task's INSERT. A statement reads what is
  committed. Tag names are unique, and so is (`external_id`, `source`): an INSERT of one that
  is committed ends the delivery, and one of a row that another transaction has inserted and
  not committed yet waits.

  Proved:
  - `exactly_one_iff`: no state has a task without its one reference; and when all deliveries
    are over, each item has its task exactly if one of its deliveries has not met, inserting
    the tag, one that was committed since it looked.
  - `a_tag_drops_an_item`: a run in which it has.
-/

namespace Errand.Server.ExternalTasks

open Errand.Lib

/-- What a handler makes its rows of. -/
structure Delivery where
  source : String
  externalId : String
  triggerId : Nat
  title : String
  /-- By the task's id, which GitHub's prompt has in it. -/
  description : Nat → String
  profileId : Option Nat
  externalUrl : String
  parentId : Option String
  metadata : List (String × Json)

structure Task where
  id : Nat
  title : String
  description : String
  profileId : Option Nat
  createdBy : String
  deriving DecidableEq, Repr

structure ExternalTaskRef where
  taskId : Nat
  triggerId : Nat
  source : String
  externalId : String
  externalUrl : String
  parentId : Option String
  metadata : List (String × Json)

abbrev Key := String × String

/-- What a delivery is about. -/
def Delivery.key (d : Delivery) : Key := (d.source, d.externalId)

def ExternalTaskRef.key (ref : ExternalTaskRef) : Key := (ref.source, ref.externalId)

def Delivery.task (d : Delivery) (id : Nat) : Task :=
  ⟨id, d.title, d.description id, d.profileId, d.source ++ ":" ++ d.externalId⟩

def Delivery.ref (d : Delivery) (id : Nat) : ExternalTaskRef :=
  ⟨id, d.triggerId, d.source, d.externalId, d.externalUrl, d.parentId, d.metadata⟩

/-- Where a delivery stands; `inserted` says whether the tag is its own. -/
inductive Phase where
  | idle
  | unlinked
  | untagged
  | tagged (inserted : Bool)
  | created (inserted : Bool) (task : Nat)
  | linked (inserted : Bool) (task : Nat)
  | done
  /-- There is a task already. -/
  | skipped
  /-- The INSERT of the tag has failed. -/
  | tagTaken
  /-- The INSERT of the reference has failed. -/
  | refTaken
  deriving DecidableEq, Repr

def Phase.over : Phase → Bool
  | .done | .skipped | .tagTaken | .refTaken => true
  | _ => false

/-- It has inserted the tag. -/
def Phase.tagging : Phase → Bool
  | .tagged inserted => inserted
  | .created inserted _ => inserted
  | .linked inserted _ => inserted
  | _ => false

/-- It has inserted its reference. -/
def Phase.linking : Phase → Bool
  | .linked _ _ => true
  | _ => false

/-- What is committed, and the phases of the deliveries. -/
structure St where
  tags : List String
  tasks : List Task
  taskTags : List (Nat × String)
  refs : List ExternalTaskRef
  nextTask : Nat
  phase : Nat → Phase

def start (tags : List String) : St := ⟨tags, [], [], [], 0, fun _ => .idle⟩

inductive Ev where
  | selectRef (i : Nat)
  | selectTag (i : Nat)
  | insertTag (i : Nat)
  | insertTask (i : Nat)
  | insertRef (i : Nat)
  | commit (i : Nat)
  deriving DecidableEq, Repr

def St.to (s : St) (i : Nat) (phase : Phase) : St := { s with phase := Function.update s.phase i phase }

section Deliveries

variable (ds : List Delivery)

/-- Another delivery, of which `p` holds, is in a phase. -/
def other (s : St) (i : Nat) (phase : Phase → Bool) (p : Delivery → Bool) : Bool :=
  (List.range ds.length).any fun j => j ≠ i && phase (s.phase j) && (ds[j]?).any p

local instance lawfulKey : LawfulBEq (String × String) := inferInstance

def step (s : St) : Ev → Option St
  | .selectRef i =>
    (ds[i]?).bind fun d =>
      match s.phase i with
      | .idle => some (s.to i (if d.key ∈ s.refs.map (·.key) then .skipped else .unlinked))
      | _ => none
  | .selectTag i =>
    (ds[i]?).bind fun d =>
      match s.phase i with
      | .unlinked => some (s.to i (if d.source ∈ s.tags then .tagged false else .untagged))
      | _ => none
  | .insertTag i =>
    (ds[i]?).bind fun d =>
      match s.phase i with
      | .untagged =>
        if d.source ∈ s.tags then some (s.to i .tagTaken)
        else if other ds s i (·.tagging) (·.source = d.source) then none
        else some (s.to i (.tagged true))
      | _ => none
  | .insertTask i =>
    match s.phase i with
    | .tagged inserted => some { s.to i (.created inserted s.nextTask) with nextTask := s.nextTask + 1 }
    | _ => none
  | .insertRef i =>
    (ds[i]?).bind fun d =>
      match s.phase i with
      | .created inserted task =>
        if d.key ∈ s.refs.map (·.key) then some (s.to i .refTaken)
        else if other ds s i (·.linking) (·.key = d.key) then none
        else some (s.to i (.linked inserted task))
      | _ => none
  | .commit i =>
    (ds[i]?).bind fun d =>
      match s.phase i with
      | .linked inserted task =>
        some
          { s.to i .done with
            tags := if inserted then s.tags ++ [d.source] else s.tags
            tasks := s.tasks ++ [d.task task]
            taskTags := s.taskTags ++ [(task, d.source)]
            refs := s.refs ++ [d.ref task] }
      | _ => none

def machine : Machine St Ev := ⟨fun s => ∃ tags, s = start tags, step ds⟩

end Deliveries

/-- Every task has one reference. -/
def Whole (s : St) : Prop := ∀ task ∈ s.tasks, s.refs.countP (fun ref => ref.taskId = task.id) = 1

/-- The item has one reference, to a task with the tag of its source. -/
structure ExactlyOne (s : St) (d : Delivery) : Prop where
  one : s.refs.countP (fun ref => ref.key = d.key) = 1
  task : ∃ ref ∈ s.refs, ref.key = d.key ∧ ref.taskId ∈ s.tasks.map (·.id) ∧ (ref.taskId, d.source) ∈ s.taskTags
  tag : d.source ∈ s.tags

/-! ## What a step can do -/

inductive Does (ds : List Delivery) (s : St) : Ev → St → Prop
  | skipped {i : Nat} (d : Delivery) (hd : ds[i]? = some d) (hphase : s.phase i = .idle)
      (hkey : d.key ∈ s.refs.map (·.key)) : Does ds s (.selectRef i) (s.to i .skipped)
  | unlinked {i : Nat} (hphase : s.phase i = .idle) : Does ds s (.selectRef i) (s.to i .unlinked)
  | tagged {i : Nat} (d : Delivery) (hd : ds[i]? = some d) (hphase : s.phase i = .unlinked) (htag : d.source ∈ s.tags) :
      Does ds s (.selectTag i) (s.to i (.tagged false))
  | untagged {i : Nat} (hphase : s.phase i = .unlinked) : Does ds s (.selectTag i) (s.to i .untagged)
  | tagTaken {i : Nat} (d : Delivery) (hd : ds[i]? = some d) (hphase : s.phase i = .untagged) (htag : d.source ∈ s.tags) :
      Does ds s (.insertTag i) (s.to i .tagTaken)
  | inserted {i : Nat} (d : Delivery) (hd : ds[i]? = some d) (hphase : s.phase i = .untagged) (htag : d.source ∉ s.tags) :
      Does ds s (.insertTag i) (s.to i (.tagged true))
  | created {i : Nat} (inserted : Bool) (hphase : s.phase i = .tagged inserted) :
      Does ds s (.insertTask i) { s.to i (.created inserted s.nextTask) with nextTask := s.nextTask + 1 }
  | refTaken {i : Nat} (inserted : Bool) (task : Nat) (d : Delivery) (hd : ds[i]? = some d)
      (hphase : s.phase i = .created inserted task) (hkey : d.key ∈ s.refs.map (·.key)) :
      Does ds s (.insertRef i) (s.to i .refTaken)
  | linked {i : Nat} (inserted : Bool) (task : Nat) (d : Delivery) (hd : ds[i]? = some d)
      (hphase : s.phase i = .created inserted task) (hkey : d.key ∉ s.refs.map (·.key))
      (halone : ∀ j e, ds[j]? = some e → j ≠ i → (s.phase j).linking = true → e.key ≠ d.key) :
      Does ds s (.insertRef i) (s.to i (.linked inserted task))
  | committed {i : Nat} (inserted : Bool) (task : Nat) (d : Delivery) (hd : ds[i]? = some d)
      (hphase : s.phase i = .linked inserted task) :
      Does ds s (.commit i)
        { s.to i .done with
          tags := if inserted then s.tags ++ [d.source] else s.tags
          tasks := s.tasks ++ [d.task task]
          taskTags := s.taskTags ++ [(task, d.source)]
          refs := s.refs ++ [d.ref task] }

section Deliveries

variable {ds : List Delivery}

theorem other_false {s : St} {i : Nat} {phase : Phase → Bool} {p : Delivery → Bool} (h : other ds s i phase p = false)
    {j : Nat} {e : Delivery} (he : ds[j]? = some e) (hj : j ≠ i) (hphase : phase (s.phase j) = true) : p e = false := by
  have hlt : j < ds.length := (List.getElem?_eq_some_iff.mp he).1
  have hall := List.any_eq_false.mp h j (List.mem_range.mpr hlt)
  rw [he] at hall
  simpa [hj, hphase] using hall

theorem step_does {s s' : St} {e : Ev} (h : step ds s e = some s') : Does ds s e s' := by
  cases e with
  | selectRef i =>
    obtain ⟨d, hd, h⟩ := Option.bind_eq_some_iff.mp h
    split at h
    · rename_i hphase
      cases h
      split
      · rename_i hkey
        exact .skipped d hd hphase hkey
      · exact .unlinked hphase
    · cases h
  | selectTag i =>
    obtain ⟨d, hd, h⟩ := Option.bind_eq_some_iff.mp h
    split at h
    · rename_i hphase
      cases h
      split
      · rename_i htag
        exact .tagged d hd hphase htag
      · exact .untagged hphase
    · cases h
  | insertTag i =>
    obtain ⟨d, hd, h⟩ := Option.bind_eq_some_iff.mp h
    split at h
    · rename_i hphase
      split at h
      · rename_i htag
        cases h
        exact .tagTaken d hd hphase htag
      · rename_i htag
        split at h
        · cases h
        · cases h
          exact .inserted d hd hphase htag
    · cases h
  | insertTask i =>
    simp only [step] at h
    split at h
    · rename_i inserted hphase
      cases h
      exact .created inserted hphase
    · cases h
  | insertRef i =>
    obtain ⟨d, hd, h⟩ := Option.bind_eq_some_iff.mp h
    split at h
    · rename_i inserted task hphase
      split at h
      · rename_i hkey
        cases h
        exact .refTaken inserted task d hd hphase hkey
      · rename_i hkey
        split at h
        · cases h
        · rename_i halone
          cases h
          refine .linked inserted task d hd hphase hkey fun j e he hj hlinking => ?_
          have := other_false (Bool.not_eq_true _ ▸ halone) he hj hlinking
          simpa using this
    · cases h
  | commit i =>
    obtain ⟨d, hd, h⟩ := Option.bind_eq_some_iff.mp h
    split at h
    · rename_i inserted task hphase
      cases h
      exact .committed inserted task d hd hphase
    · cases h

/-! ## What the steps keep -/

/-- The task it has inserted. -/
def Phase.task : Phase → Option Nat
  | .created _ task | .linked _ task => some task
  | _ => none

/-- What a delivery in a phase goes by: the tag it has found, the reference there is, or the
    reference there is not. -/
def Ok (s : St) (d : Delivery) : Phase → Prop
  | .tagged inserted => inserted = false → d.source ∈ s.tags
  | .created inserted _ => inserted = false → d.source ∈ s.tags
  | .linked inserted _ => (inserted = false → d.source ∈ s.tags) ∧ d.key ∉ s.refs.map (·.key)
  | .done | .skipped | .refTaken => d.key ∈ s.refs.map (·.key)
  | _ => True

structure Inv (ds : List Delivery) (s : St) : Prop where
  keys : (s.refs.map (·.key)).Nodup
  rows : s.tasks.map (·.id) = s.refs.map (·.taskId)
  ids : (s.tasks.map (·.id)).Nodup
  tagged : ∀ ref ∈ s.refs, (ref.taskId, ref.source) ∈ s.taskTags ∧ ref.source ∈ s.tags
  made : ∀ ref ∈ s.refs, ∃ j d, ds[j]? = some d ∧ s.phase j = .done ∧ d.key = ref.key
  ok : ∀ i d, ds[i]? = some d → Ok s d (s.phase i)
  fresh : ∀ i task, (s.phase i).task = some task → task < s.nextTask ∧ task ∉ s.tasks.map (·.id)
  older : ∀ task ∈ s.tasks.map (·.id), task < s.nextTask
  own : ∀ i j task, (s.phase i).task = some task → (s.phase j).task = some task → i = j
  alone : ∀ i j d e, ds[i]? = some d → ds[j]? = some e → (s.phase i).linking = true → (s.phase j).linking = true →
    d.key = e.key → i = j

theorem start_inv (tags : List String) : Inv ds (start tags) where
  keys := List.nodup_nil
  rows := rfl
  ids := List.nodup_nil
  tagged _ h := absurd h List.not_mem_nil
  made _ h := absurd h List.not_mem_nil
  ok _ _ _ := trivial
  fresh _ _ h := nomatch h
  older _ h := absurd h List.not_mem_nil
  own _ _ _ h := nomatch h
  alone _ _ _ _ _ _ h := nomatch h

theorem phase_to (s : St) (i j : Nat) (phase : Phase) :
    (s.to i phase).phase j = if j = i then phase else s.phase j := by
  simp only [St.to, Function.update_apply]

/-- A statement that changes nothing but the phase. -/
theorem inv_to {s : St} (hi : Inv ds s) {i : Nat} {phase : Phase} (hdone : s.phase i ≠ .done)
    (hok : ∀ d, ds[i]? = some d → Ok s d phase) (htask : ∀ task, phase.task = some task → (s.phase i).task = some task)
    (halone : phase.linking = true → ∀ d j e, ds[i]? = some d → ds[j]? = some e → j ≠ i → (s.phase j).linking = true →
      e.key ≠ d.key) : Inv ds (s.to i phase) := by
  have hmoved : ∀ j task, ((s.to i phase).phase j).task = some task → (s.phase j).task = some task := by
    intro j task h
    rw [phase_to] at h
    split at h
    · rename_i hj
      rw [hj]
      exact htask task h
    · exact h
  refine ⟨hi.keys, hi.rows, hi.ids, hi.tagged, ?_, ?_, ?_, hi.older, ?_, ?_⟩
  · intro ref href
    obtain ⟨j, d, hd, hphase, hkey⟩ := hi.made ref href
    refine ⟨j, d, hd, ?_, hkey⟩
    rw [phase_to, if_neg]
    · exact hphase
    · intro hj
      rw [hj] at hphase
      exact hdone hphase
  · intro j d hd
    rw [phase_to]
    split
    · rename_i hj
      rw [hj] at hd
      exact hok d hd
    · exact hi.ok j d hd
  · intro j task h
    exact hi.fresh j task (hmoved j task h)
  · intro j k task hj hk
    exact hi.own j k task (hmoved j task hj) (hmoved k task hk)
  · intro j k d e hd he hj hk hkey
    rw [phase_to] at hj hk
    by_cases hji : j = i
    · by_cases hki : k = i
      · rw [hji, hki]
      · subst hji
        rw [if_pos rfl] at hj
        rw [if_neg hki] at hk
        exact absurd hkey.symm (halone hj d k e hd he hki hk)
    · by_cases hki : k = i
      · subst hki
        rw [if_pos rfl] at hk
        rw [if_neg hji] at hj
        exact absurd hkey (halone hk e j d he hd hji hj)
      · rw [if_neg hji] at hj
        rw [if_neg hki] at hk
        exact hi.alone j k d e hd he hj hk hkey

/-- The INSERT of a task takes an id that nothing has. -/
theorem inv_created {s : St} (hi : Inv ds s) {i : Nat} {inserted : Bool} (hphase : s.phase i = .tagged inserted) :
    Inv ds { s.to i (.created inserted s.nextTask) with nextTask := s.nextTask + 1 } := by
  have htask : ∀ j task, ((s.to i (.created inserted s.nextTask)).phase j).task = some task →
      j = i ∧ task = s.nextTask ∨ j ≠ i ∧ (s.phase j).task = some task := by
    intro j task h
    rw [phase_to] at h
    split at h
    · rename_i hj
      cases h
      exact .inl ⟨hj, rfl⟩
    · rename_i hj
      exact .inr ⟨hj, h⟩
  refine ⟨hi.keys, hi.rows, hi.ids, hi.tagged, ?_, ?_, ?_, ?_, ?_, ?_⟩
  · intro ref href
    obtain ⟨j, d, hd, hdone, hkey⟩ := hi.made ref href
    refine ⟨j, d, hd, ?_, hkey⟩
    show (s.to i _).phase j = .done
    rw [phase_to, if_neg]
    · exact hdone
    · intro hj
      rw [hj, hphase] at hdone
      cases hdone
  · intro j d hd
    show Ok s d ((s.to i _).phase j)
    rw [phase_to]
    split
    · rename_i hj
      have hok := hi.ok j d hd
      rw [hj, hphase] at hok
      exact hok
    · exact hi.ok j d hd
  · intro j task h
    show task < s.nextTask + 1 ∧ task ∉ s.tasks.map (·.id)
    rcases htask j task h with ⟨-, rfl⟩ | ⟨-, h⟩
    · exact ⟨Nat.lt_succ_self _, fun hmem => absurd (hi.older _ hmem) (Nat.lt_irrefl _)⟩
    · have := hi.fresh j task h
      exact ⟨Nat.lt_succ_of_lt this.1, this.2⟩
  · intro task hmem
    exact Nat.lt_succ_of_lt (hi.older task hmem)
  · intro j k task hj hk
    rcases htask j task hj with ⟨hji, rfl⟩ | ⟨-, hj⟩
    · rcases htask k _ hk with ⟨hki, -⟩ | ⟨-, hk⟩
      · rw [hji, hki]
      · exact absurd (hi.fresh k _ hk).1 (Nat.lt_irrefl _)
    · rcases htask k task hk with ⟨-, rfl⟩ | ⟨-, hk⟩
      · exact absurd (hi.fresh j _ hj).1 (Nat.lt_irrefl _)
      · exact hi.own j k task hj hk
  · intro j k d e hd he hj hk hkey
    have hlinking : ∀ n, ((s.to i (.created inserted s.nextTask)).phase n).linking = true → (s.phase n).linking = true := by
      intro n hn
      rw [phase_to] at hn
      split at hn
      · cases hn
      · exact hn
    exact hi.alone j k d e hd he (hlinking j hj) (hlinking k hk) hkey

/-- What a delivery has gone by still holds after another's commit. -/
theorem Ok.grown {s s' : St} {d : Delivery} {phase : Phase} (h : Ok s d phase) (htags : ∀ t ∈ s.tags, t ∈ s'.tags)
    (hrefs : ∀ key ∈ s.refs.map (·.key), key ∈ s'.refs.map (·.key))
    (hlinking : phase.linking = true → d.key ∉ s'.refs.map (·.key)) : Ok s' d phase := by
  cases phase with
  | tagged inserted => exact fun hb => htags _ (h hb)
  | created inserted task => exact fun hb => htags _ (h hb)
  | linked inserted task => exact ⟨fun hb => htags _ (h.1 hb), hlinking rfl⟩
  | done => exact hrefs _ h
  | skipped => exact hrefs _ h
  | refTaken => exact hrefs _ h
  | _ => trivial

theorem inv_committed {s : St} (hi : Inv ds s) {i : Nat} {inserted : Bool} {task : Nat} {d : Delivery}
    (hd : ds[i]? = some d) (hphase : s.phase i = .linked inserted task) :
    Inv ds
      { s.to i .done with
        tags := if inserted then s.tags ++ [d.source] else s.tags
        tasks := s.tasks ++ [d.task task]
        taskTags := s.taskTags ++ [(task, d.source)]
        refs := s.refs ++ [d.ref task] } := by
  have hok := hi.ok i d hd
  rw [hphase] at hok
  have hfresh := hi.fresh i task (by rw [hphase]; rfl)
  have htags : ∀ t ∈ s.tags, t ∈ (if inserted then s.tags ++ [d.source] else s.tags) := by
    intro t ht
    split
    · exact List.mem_append_left _ ht
    · exact ht
  have hsource : d.source ∈ (if inserted then s.tags ++ [d.source] else s.tags) := by
    cases inserted with
    | false => exact hok.1 rfl
    | true => exact List.mem_append_right _ (List.mem_singleton.mpr rfl)
  have hmoved : ∀ j t, ((s.to i .done).phase j).task = some t → j ≠ i ∧ (s.phase j).task = some t := by
    intro j t h
    rw [phase_to] at h
    split at h
    · cases h
    · rename_i hj
      exact ⟨hj, h⟩
  have hlinking : ∀ n, ((s.to i .done).phase n).linking = true → n ≠ i ∧ (s.phase n).linking = true := by
    intro n hn
    rw [phase_to] at hn
    split at hn
    · cases hn
    · rename_i hne
      exact ⟨hne, hn⟩
  refine ⟨?_, ?_, ?_, ?_, ?_, ?_, ?_, ?_, ?_, ?_⟩
  · show ((s.refs ++ [d.ref task]).map (·.key)).Nodup
    rw [List.map_append]
    refine List.nodup_append.mpr ⟨hi.keys, List.nodup_singleton _, ?_⟩
    intro key hkey key' hkey' he
    have hnew : key' = d.key := List.mem_singleton.mp hkey'
    rw [he, hnew] at hkey
    exact hok.2 hkey
  · show (s.tasks ++ [d.task task]).map (·.id) = (s.refs ++ [d.ref task]).map (·.taskId)
    rw [List.map_append, List.map_append, hi.rows]
    rfl
  · show ((s.tasks ++ [d.task task]).map (·.id)).Nodup
    rw [List.map_append]
    refine List.nodup_append.mpr ⟨hi.ids, List.nodup_singleton _, ?_⟩
    intro t ht t' ht' he
    obtain rfl := List.mem_singleton.mp ht'
    exact hfresh.2 (he ▸ ht)
  · intro ref href
    rcases List.mem_append.mp href with href | href
    · exact ⟨List.mem_append_left _ (hi.tagged ref href).1, htags _ (hi.tagged ref href).2⟩
    · obtain rfl := List.mem_singleton.mp href
      exact ⟨List.mem_append_right _ (List.mem_singleton.mpr rfl), hsource⟩
  · intro ref href
    rcases List.mem_append.mp href with href | href
    · obtain ⟨j, e, he, hdone, hkey⟩ := hi.made ref href
      refine ⟨j, e, he, ?_, hkey⟩
      show (s.to i .done).phase j = .done
      rw [phase_to]
      split
      · rfl
      · exact hdone
    · obtain rfl := List.mem_singleton.mp href
      refine ⟨i, d, hd, ?_, rfl⟩
      show (s.to i .done).phase i = .done
      rw [phase_to, if_pos rfl]
  · intro j e he
    show Ok _ e ((s.to i .done).phase j)
    rw [phase_to]
    by_cases hj : j = i
    · rw [if_pos hj]
      rw [hj, hd] at he
      cases he
      exact List.mem_map.mpr ⟨d.ref task, List.mem_append_right _ (List.mem_singleton.mpr rfl), rfl⟩
    · rw [if_neg hj]
      refine Ok.grown (hi.ok j e he) (fun t ht => htags t ht) (fun key hkey => ?_) fun hl => ?_
      · show key ∈ (s.refs ++ [d.ref task]).map (·.key)
        rw [List.map_append]
        exact List.mem_append_left _ hkey
      · show e.key ∉ (s.refs ++ [d.ref task]).map (·.key)
        have hoj := hi.ok j e he
        intro hmem
        rw [List.map_append] at hmem
        rcases List.mem_append.mp hmem with hmem | hmem
        · cases hp : s.phase j <;> rw [hp] at hl hoj
          case linked => exact hoj.2 hmem
          all_goals cases hl
        · have hkey : e.key = d.key := List.mem_singleton.mp hmem
          exact hj (hi.alone j i e d he hd hl (by rw [hphase]; rfl) hkey)
  · intro j t h
    obtain ⟨hj, h⟩ := hmoved j t h
    refine ⟨(hi.fresh j t h).1, ?_⟩
    show t ∉ (s.tasks ++ [d.task task]).map (·.id)
    rw [List.map_append]
    intro hmem
    rcases List.mem_append.mp hmem with hmem | hmem
    · exact (hi.fresh j t h).2 hmem
    · have ht : t = task := List.mem_singleton.mp hmem
      rw [ht] at h
      exact hj (hi.own j i task h (by rw [hphase]; rfl))
  · intro t hmem
    have hmem : t ∈ (s.tasks ++ [d.task task]).map (·.id) := hmem
    rw [List.map_append] at hmem
    rcases List.mem_append.mp hmem with hmem | hmem
    · exact hi.older t hmem
    · have ht : t = task := List.mem_singleton.mp hmem
      rw [ht]
      exact hfresh.1
  · intro j k t hj hk
    exact hi.own j k t (hmoved j t hj).2 (hmoved k t hk).2
  · intro j k e f he hf hj hk hkey
    exact hi.alone j k e f he hf (hlinking j hj).2 (hlinking k hk).2 hkey

theorem step_inv {s s' : St} {e : Ev} (hi : Inv ds s) (h : step ds s e = some s') : Inv ds s' := by
  cases step_does h with
  | @skipped i d hd hphase hkey =>
    refine inv_to hi (by rw [hphase]; nofun) (fun e he => ?_) nofun nofun
    rw [hd] at he
    cases he
    exact hkey
  | unlinked hphase => exact inv_to hi (by rw [hphase]; nofun) (fun _ _ => trivial) nofun nofun
  | @tagged i d hd hphase htag =>
    refine inv_to hi (by rw [hphase]; nofun) (fun e he => ?_) nofun nofun
    rw [hd] at he
    cases he
    exact fun _ => htag
  | untagged hphase => exact inv_to hi (by rw [hphase]; nofun) (fun _ _ => trivial) nofun nofun
  | tagTaken d hd hphase htag => exact inv_to hi (by rw [hphase]; nofun) (fun _ _ => trivial) nofun nofun
  | inserted d hd hphase htag => exact inv_to hi (by rw [hphase]; nofun) (fun _ _ => nofun) nofun nofun
  | created inserted hphase => exact inv_created hi hphase
  | @refTaken i inserted task d hd hphase hkey =>
    refine inv_to hi (by rw [hphase]; nofun) (fun e he => ?_) nofun nofun
    rw [hd] at he
    cases he
    exact hkey
  | @linked i inserted task d hd hphase hkey halone =>
    refine inv_to hi (by rw [hphase]; nofun) (fun e he => ?_) (fun t ht => ?_) fun _ e j f he hf hj hl => ?_
    · rw [hd] at he
      cases he
      have hok := hi.ok i d hd
      rw [hphase] at hok
      exact ⟨hok, hkey⟩
    · rw [hphase]
      exact ht
    · rw [hd] at he
      cases he
      exact halone j f hf hj hl
  | committed inserted task d hd hphase => exact inv_committed hi hd hphase

/-! ## What a run comes to -/

theorem run_inv {tags : List String} {es : List Ev} {s : St} (h : (machine ds).exec (start tags) es = some s) :
    Inv ds s :=
  Machine.exec_inv (M := machine ds) (A := fun _ => True) (P := Inv ds) (fun _ _ _ hi _ hst => step_inv hi hst)
    (start_inv tags) (fun _ _ => trivial) h

/-- Where no value stands twice, each that stands there is counted once. -/
theorem countP_eq_one {α β : Type} [DecidableEq β] {f : α → β} {xs : List α} (hn : (xs.map f).Nodup) {b : β}
    (hb : b ∈ xs.map f) : xs.countP (fun x => f x = b) = 1 := by
  have hcount := List.count_eq_one_of_mem hn hb
  rw [List.count, List.countP_map] at hcount
  rw [← hcount]
  refine List.countP_congr fun x _ => ?_
  simp

/-- A task is committed with its reference. -/
theorem whole {s : St} (hi : Inv ds s) : Whole s := by
  intro task hmem
  have hid : task.id ∈ s.refs.map (·.taskId) := by
    rw [← hi.rows]
    exact List.mem_map.mpr ⟨task, hmem, rfl⟩
  refine countP_eq_one ?_ hid
  rw [← hi.rows]
  exact hi.ids

theorem exactlyOne_iff {s : St} (hi : Inv ds s) (d : Delivery) : ExactlyOne s d ↔ d.key ∈ s.refs.map (·.key) := by
  constructor
  · intro h
    obtain ⟨ref, href, hkey, -⟩ := h.task
    exact List.mem_map.mpr ⟨ref, href, hkey⟩
  · intro h
    obtain ⟨ref, href, hkey⟩ := List.mem_map.mp h
    have hsource : ref.source = d.source := congrArg Prod.fst hkey
    have htagged := hi.tagged ref href
    rw [hsource] at htagged
    refine ⟨countP_eq_one hi.keys h, ⟨ref, href, hkey, ?_, htagged.1⟩, htagged.2⟩
    rw [hi.rows]
    exact List.mem_map.mpr ⟨ref, href, rfl⟩

/-- The INSERT of a delivery's tag meets one that is committed. -/
def Beaten (ds : List Delivery) (j : Nat) (s : St) (e : Ev) : Prop :=
  e = .insertTag j ∧ ∃ d, ds[j]? = some d ∧ d.source ∈ s.tags

theorem step_tagTaken {s s' : St} {e : Ev} (h : step ds s e = some s') (j : Nat) :
    s'.phase j = .tagTaken ↔ s.phase j = .tagTaken ∨ Beaten ds j s e := by
  have hto : ∀ (i : Nat) (phase : Phase), phase ≠ .tagTaken → s.phase i ≠ .tagTaken → ¬ Beaten ds j s e →
      ((s.to i phase).phase j = .tagTaken ↔ s.phase j = .tagTaken ∨ Beaten ds j s e) := by
    intro i phase hphase hbefore hbeaten
    rw [phase_to, or_iff_left hbeaten]
    split
    · rename_i hj
      rw [hj]
      exact iff_of_false hphase hbefore
    · rfl
  cases step_does h with
  | skipped d hd hphase hkey => exact hto _ _ nofun (by rw [hphase]; nofun) nofun
  | unlinked hphase => exact hto _ _ nofun (by rw [hphase]; nofun) nofun
  | tagged d hd hphase htag => exact hto _ _ nofun (by rw [hphase]; nofun) nofun
  | untagged hphase => exact hto _ _ nofun (by rw [hphase]; nofun) nofun
  | @tagTaken i d hd hphase htag =>
    rw [phase_to]
    by_cases hj : j = i
    · rw [if_pos hj, hj]
      exact iff_of_true rfl (.inr ⟨rfl, d, hd, htag⟩)
    · rw [if_neg hj]
      refine (or_iff_left ?_).symm
      intro hbeaten
      have he := hbeaten.1
      cases he
      exact hj rfl
  | @inserted i d hd hphase htag =>
    refine hto _ _ nofun (by rw [hphase]; nofun) fun hbeaten => ?_
    obtain ⟨he, e, hd', htag'⟩ := hbeaten
    cases he
    rw [hd] at hd'
    cases hd'
    exact htag htag'
  | created inserted hphase => exact hto _ _ nofun (by rw [hphase]; nofun) nofun
  | refTaken inserted task d hd hphase hkey => exact hto _ _ nofun (by rw [hphase]; nofun) nofun
  | linked inserted task d hd hphase hkey halone => exact hto _ _ nofun (by rw [hphase]; nofun) nofun
  | committed inserted task d hd hphase => exact hto _ _ nofun (by rw [hphase]; nofun) nofun

theorem run_tagTaken {es : List Ev} {s s' : St} (h : (machine ds).exec s es = some s') (j : Nat) :
    s'.phase j = .tagTaken ↔ s.phase j = .tagTaken ∨ ∃ p ∈ (machine ds).trace s es, Beaten ds j p.1 p.2 := by
  induction es generalizing s with
  | nil =>
    cases h
    simp [Machine.trace]
  | cons e es ih =>
    obtain ⟨t, hst, h⟩ := Option.bind_eq_some_iff.mp h
    rw [Machine.trace_cons _ hst, ih h, step_tagTaken hst]
    simp only [List.mem_cons, exists_eq_or_imp, or_assoc]

end Deliveries

/-! ## New issues, with the tag and without -/

def issue (key : String) : Delivery :=
  ⟨"jira", key, 1, key ++ ": Tidy up", fun _ => "", none, "https://example.atlassian.net/browse/" ++ key, none, []⟩

def served : List Ev := [.selectRef 0, .selectTag 0, .insertTask 0, .insertRef 0, .commit 0]

/-- The first deliveries of all: the second finds the tag missing, and then there. -/
def race : List Ev :=
  [.selectRef 0, .selectRef 1, .selectTag 0, .selectTag 1, .insertTag 0, .insertTask 0, .insertRef 0, .commit 0,
    .insertTag 1]

end Errand.Server.ExternalTasks

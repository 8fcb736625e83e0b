import Errand.Lib.Places
import Errand.Server.EvalMarking
import Errand.Server.TaskEdits

/-
  Errand.Server.ColumnOrder — a task given a position in its own column (`update_task`), and
  the order in which `list_tasks` shows the column: by position, and by `created_at` where
  positions are equal.

  The tasks between are shifted by one, over the position the task leaves. That position need
  not be free then: another task may have it too, and the one next to it is shifted onto it.

  Proved:
  - `reordered_iff`: the others keep their order exactly if those that meet at the position
    the task leaves were created in the order they are shown in; the task gets the position
    asked for, and positions that were distinct stay distinct, in either case.
  - `column_kept`: then, where no two of the others have both position and `created_at` in
    common, the column without the task is listed as before.
  - `a_tie_is_reordered`: two tasks at one position, the younger of which is moved up.
-/

namespace Errand.Server.ColumnOrder

open Errand.Lib Errand.Lib.Places Errand.Server.Tasks Errand.Server.TaskCreation Errand.Server.TaskEdits
open Errand.Server.EvalMarking

/-- Where a task is shown in its column. -/
def rank (t : Task) : Int ×ₗ Timestamp := toLex (t.position, t.createdAt)

def InColumn (db : Db) (status : Status) (id : Nat) (t : Task) : Prop := db.get id = some t ∧ t.status = status

def Distinct (db : Db) (status : Status) : Prop :=
  ∀ {a b ta tb}, InColumn db status a ta → InColumn db status b tb → ta.position = tb.position → a = b

/-- What moving the task `id` of a column to a position is to do. -/
structure Reordered (db db' : Db) (status : Status) (id : Nat) (newPos : Int) : Prop where
  placed : ∃ t, InColumn db' status id t ∧ t.position = newPos
  others : ∀ j, j ≠ id → ((∃ t, InColumn db status j t) ↔ ∃ t, InColumn db' status j t)
  kept : ∀ {a b ta tb ta' tb'}, a ≠ id → b ≠ id → InColumn db status a ta → InColumn db status b tb →
    InColumn db' status a ta' → InColumn db' status b tb' → (rank ta < rank tb ↔ rank ta' < rank tb')
  distinct : Distinct db status → Distinct db' status

/-- Tasks that the move brings to the position it leaves were created in the order of their
    positions. -/
def MeetInOrder (db : Db) (status : Status) (id : Nat) (oldPos newPos : Int) : Prop :=
  ∀ {a b ta tb}, a ≠ id → b ≠ id → InColumn db status a ta → InColumn db status b tb →
    Meet oldPos newPos ta.position tb.position → ta.createdAt < tb.createdAt

/-! ## The rows after a move -/

section Rows

variable {now : Timestamp} {status : Status} {oldPos newPos : Int} {t : Task}

/-- A row of the column is shifted, and keeps what else it is listed by. -/
theorem makeRoom_shifted (h : t.status = status) :
    (makeRoom now status oldPos newPos t).position = shifted oldPos newPos t.position ∧
      (makeRoom now status oldPos newPos t).createdAt = t.createdAt ∧
      (makeRoom now status oldPos newPos t).isEval = t.isEval := by
  have hs : ¬ t.status ≠ status := fun hne => hne h
  unfold makeRoom shifted
  rw [if_neg hs]
  by_cases hup : newPos < oldPos
  · rw [if_pos hup, if_pos hup]
    split <;> exact ⟨rfl, rfl, rfl⟩
  · rw [if_neg hup, if_neg hup]
    split <;> exact ⟨rfl, rfl, rfl⟩

theorem rank_makeRoom (h : t.status = status) :
    rank (makeRoom now status oldPos newPos t) = toLex (shifted oldPos newPos t.position, t.createdAt) := by
  obtain ⟨hposition, hcreated, -⟩ := @makeRoom_shifted now status oldPos newPos t h
  rw [rank, hposition, hcreated]

end Rows

section Move

variable {fromisoformat : String → Option Timestamp} {uuid : String → Option Nat} {now : Timestamp} {db db' : Db}
variable {profiles : Profiles} {id : Nat} {body : TaskUpdate} {email : Option String} {t : Task} {newPos : Int}

/-- A body that asks for a position and leaves the column. -/
theorem updateTask_moved (h : updateTask fromisoformat uuid now db profiles id body email = .ok db')
    (ht : db.get id = some t) (hs : body.status.getD t.status = t.status) (hp : body.position = some newPos) :
    (∃ t', InColumn db' t.status id t' ∧ t'.position = newPos ∧ t'.isEval = t.isEval) ∧
      ∀ j, j ≠ id → db'.get j = (db.get j).map (makeRoom now t.status t.position newPos) := by
  have hcolumn : ¬ body.status.getD t.status ≠ t.status := fun hne => hne hs
  unfold updateTask at h
  rw [ht] at h
  simp only at h
  by_cases hr : t.status = .running
  · rw [if_pos hr] at h
    cases h
  · rw [if_neg hr] at h
    cases hprofile : profileField uuid profiles body.profileId t.profileId with
    | error e =>
      rw [hprofile] at h
      cases h
    | ok profileId =>
      rw [hprofile] at h
      obtain rfl := Except.ok.inj h
      constructor
      · refine ⟨edited fromisoformat now db id t body profileId email, ⟨by simp [mapRows, ht], hs⟩, ?_, rfl⟩
        simp [edited, hs, hp]
      · intro j hj
        simp only [mapRows, if_neg hj, if_neg hcolumn, hp, Option.getD_some]

variable (hother : ∀ j, j ≠ id → db'.get j = (db.get j).map (makeRoom now t.status t.position newPos))
include hother

/-- The other tasks of the column after the move. -/
theorem inColumn_iff {j : Nat} {row' : Task} (hj : j ≠ id) :
    InColumn db' t.status j row' ↔
      ∃ row, InColumn db t.status j row ∧ row' = makeRoom now t.status t.position newPos row := by
  unfold InColumn
  rw [hother j hj]
  constructor
  · rintro ⟨hget, hs⟩
    obtain ⟨row, hrow, rfl⟩ := Option.map_eq_some_iff.mp hget
    exact ⟨row, ⟨hrow, (makeRoom_kept ..).1 ▸ hs⟩, rfl⟩
  · rintro ⟨row, ⟨hrow, hs⟩, rfl⟩
    exact ⟨by rw [hrow]; rfl, (makeRoom_kept ..).1.trans hs⟩

/-- The others keep their order exactly if those that meet were created in it. -/
theorem kept_iff :
    (∀ {a b ta tb ta' tb'}, a ≠ id → b ≠ id → InColumn db t.status a ta → InColumn db t.status b tb →
        InColumn db' t.status a ta' → InColumn db' t.status b tb' → (rank ta < rank tb ↔ rank ta' < rank tb')) ↔
      MeetInOrder db t.status id t.position newPos := by
  constructor
  · intro hkept a b ta tb ha hb hta htb hmeet
    have hta' := (inColumn_iff hother ha).mpr ⟨ta, hta, rfl⟩
    have htb' := (inColumn_iff hother hb).mpr ⟨tb, htb, rfl⟩
    have hiff := hkept ha hb hta htb hta' htb'
    rw [rank_makeRoom hta.2, rank_makeRoom htb.2] at hiff
    exact (lt_shifted_iff.mp hiff).1 hmeet
  · intro hmeet a b ta tb ta' tb' ha hb hta htb hta' htb'
    obtain ⟨row, hrow, rfl⟩ := (inColumn_iff hother ha).mp hta'
    obtain rfl := Option.some.inj (hta.1.symm.trans hrow.1)
    obtain ⟨row, hrow, rfl⟩ := (inColumn_iff hother hb).mp htb'
    obtain rfl := Option.some.inj (htb.1.symm.trans hrow.1)
    rw [rank_makeRoom hta.2, rank_makeRoom htb.2]
    refine lt_shifted_iff.mpr ⟨hmeet ha hb hta htb, ?_⟩
    intro hback
    exact (hmeet hb ha htb hta hback).not_gt

/-- Distinct positions stay distinct: the one the task leaves was its alone, and none is
    shifted onto the one it gets. -/
theorem distinct_moved (ht : db.get id = some t) {t' : Task} (hmoved : InColumn db' t.status id t')
    (hposition : t'.position = newPos) (h : Distinct db t.status) : Distinct db' t.status := by
  have hself : InColumn db t.status id t := ⟨ht, rfl⟩
  -- another task of the column comes from one that was not at the position left
  have hfrom : ∀ {j row'}, j ≠ id → InColumn db' t.status j row' →
      ∃ row, InColumn db t.status j row ∧ row.position ≠ t.position ∧
        row'.position = shifted t.position newPos row.position := by
    intro j row' hj hrow'
    obtain ⟨row, hrow, rfl⟩ := (inColumn_iff hother hj).mp hrow'
    exact ⟨row, hrow, fun heq => hj (h hrow hself heq), (makeRoom_shifted hrow.2).1⟩
  have hfree : ∀ {j row'}, j ≠ id → InColumn db' t.status j row' → row'.position ≠ newPos := by
    intro j row' hj hrow' heq
    obtain ⟨row, hrow, hne, hshifted⟩ := hfrom hj hrow'
    rw [hshifted] at heq
    by_cases hnew : newPos = t.position
    · rw [hnew, shifted_same] at heq
      exact hne heq
    · exact shifted_ne hnew _ heq
  intro a b ta tb hta htb heq
  by_cases ha : a = id
  · subst ha
    obtain rfl := Option.some.inj (hmoved.1.symm.trans hta.1)
    by_contra hne
    exact hfree (Ne.symm hne) htb (heq.symm.trans hposition)
  · by_cases hb : b = id
    · subst hb
      obtain rfl := Option.some.inj (hmoved.1.symm.trans htb.1)
      exact absurd (heq.trans hposition) (hfree ha hta)
    · obtain ⟨ra, hra, hnea, hsa⟩ := hfrom ha hta
      obtain ⟨rb, hrb, hneb, hsb⟩ := hfrom hb htb
      rw [hsa, hsb] at heq
      exact h hra hrb (shifted_inj hnea hneb heq)

omit hother

theorem reordered_iff (h : updateTask fromisoformat uuid now db profiles id body email = .ok db')
    (ht : db.get id = some t) (hs : body.status.getD t.status = t.status) (hp : body.position = some newPos) :
    Reordered db db' t.status id newPos ↔ MeetInOrder db t.status id t.position newPos := by
  obtain ⟨⟨t', hmoved, hposition, -⟩, hother⟩ := updateTask_moved h ht hs hp
  constructor
  · intro hreordered
    exact (kept_iff hother).mp hreordered.kept
  · intro hmeet
    refine ⟨⟨t', hmoved, hposition⟩, ?_, (kept_iff hother).mpr hmeet, distinct_moved hother ht hmoved hposition⟩
    intro j hj
    constructor
    · rintro ⟨row, hrow⟩
      exact ⟨_, (inColumn_iff hother hj).mpr ⟨row, hrow, rfl⟩⟩
    · rintro ⟨row', hrow'⟩
      obtain ⟨row, hrow, -⟩ := (inColumn_iff hother hj).mp hrow'
      exact ⟨row, hrow⟩

end Move

/-! ## The column as it is listed -/

/-- A column of the board, without one of its tasks. -/
def columnWithout (includeEvals : Bool) (db : Db) (status : Status) (id : Nat) : List Nat :=
  (((listTasks includeEvals db).filter (·.2.status = status)).map (·.1)).filter (· ≠ id)

/-- Where a task is shown in its column, by its id. -/
def rankAt (db : Db) (id : Nat) : Int ×ₗ Timestamp := (db.get id).elim (toLex (0, 0)) rank

theorem rankAt_eq {db : Db} {id : Nat} {t : Task} (h : db.get id = some t) : rankAt db id = rank t := by
  rw [rankAt, h]
  rfl

/-- The comparison the list is sorted by. -/
theorem ranked_iff (a b : Nat × Task) :
    (a.2.position < b.2.position || (a.2.position = b.2.position && a.2.createdAt ≤ b.2.createdAt)) = true ↔
      rank a.2 ≤ rank b.2 := by
  simp [rank, Prod.Lex.toLex_le_toLex]

section Listed

variable {includeEvals : Bool} {db : Db} {status : Status} {id : Nat}
variable (hactive : status ≠ .deleted ∧ status ≠ .archived ∧ status ≠ .completed)
include hactive

theorem mem_columnWithout {j : Nat} :
    j ∈ columnWithout includeEvals db status id ↔
      j ≠ id ∧ ∃ t, InColumn db status j t ∧ (includeEvals || !t.isEval) = true := by
  obtain ⟨hdeleted, harchived, hcompleted⟩ := hactive
  unfold columnWithout InColumn
  simp only [listTasks, List.mem_filter, List.mem_map, List.mem_append, List.mem_mergeSort, mem_numbered,
    decide_eq_true_eq]
  constructor
  · rintro ⟨⟨row, ⟨⟨⟨hget, heval⟩, -⟩ | ⟨⟨hget, heval⟩, -⟩, hs⟩, rfl⟩, hj⟩ <;> exact ⟨hj, row.2, ⟨hget, hs⟩, heval⟩
  · rintro ⟨hj, t, ⟨hget, rfl⟩, heval⟩
    refine ⟨⟨(j, t), ⟨.inl ⟨⟨hget, heval⟩, ?_⟩, rfl⟩, rfl⟩, hj⟩
    simp [hdeleted, harchived, hcompleted]

/-- The rows of the column are listed among the active ones. -/
theorem columnWithout_eq :
    columnWithout includeEvals db status id =
      ((((((numbered db).filter fun row => includeEvals || !row.2.isEval).filter fun row =>
          !([.deleted, .archived, .completed] : List Status).contains row.2.status).mergeSort fun a b =>
            a.2.position < b.2.position || (a.2.position = b.2.position && a.2.createdAt ≤ b.2.createdAt)).filter
              (·.2.status = status)).map (·.1)).filter (· ≠ id) := by
  have hcompleted : ∀ (rows : List (Nat × Task)) (le : Nat × Task → Nat × Task → Bool),
      ((rows.filter (·.2.status = .completed)).mergeSort le).filter (·.2.status = status) = [] := by
    intro rows le
    refine List.filter_eq_nil_iff.mpr fun row hrow hs => ?_
    simp only [List.mem_mergeSort, List.mem_filter, decide_eq_true_eq] at hrow hs
    exact hactive.2.2 (hs.symm.trans hrow.2)
  unfold columnWithout listTasks
  rw [List.filter_append, hcompleted, List.append_nil]

theorem columnWithout_sorted :
    (columnWithout includeEvals db status id).Pairwise fun a b => rankAt db a ≤ rankAt db b := by
  rw [columnWithout_eq hactive]
  refine List.Pairwise.filter _ (List.pairwise_map.mpr (List.Pairwise.filter _ ?_))
  refine (List.pairwise_mergeSort ?_ ?_ _).imp_of_mem ?_
  · intro a b c hab hbc
    exact (ranked_iff ..).mpr (le_trans ((ranked_iff ..).mp hab) ((ranked_iff ..).mp hbc))
  · intro a b
    rcases le_total (rank a.2) (rank b.2) with h | h
    · exact Bool.or_eq_true_iff.mpr (.inl ((ranked_iff ..).mpr h))
    · exact Bool.or_eq_true_iff.mpr (.inr ((ranked_iff ..).mpr h))
  · intro a b ha hb hab
    simp only [List.mem_mergeSort, List.mem_filter, mem_numbered] at ha hb
    rw [rankAt_eq ha.1.1, rankAt_eq hb.1.1]
    exact (ranked_iff ..).mp hab

theorem columnWithout_nodup : (columnWithout includeEvals db status id).Nodup := by
  rw [columnWithout_eq hactive]
  refine List.Nodup.filter _ (List.Nodup.sublist (List.filter_sublist.map _) ?_)
  rw [((List.mergeSort_perm ..).map _).nodup_iff]
  exact (numbered_nodup db).sublist ((List.filter_sublist.trans List.filter_sublist).map _)

end Listed

section Shown

variable {fromisoformat : String → Option Timestamp} {uuid : String → Option Nat} {now : Timestamp} {db db' : Db}
variable {profiles : Profiles} {id : Nat} {body : TaskUpdate} {email : Option String} {t : Task} {newPos : Int}

/-- Where no two of the other tasks are level, a move that is `Reordered` changes nothing of
    the column but where the task is. -/
theorem column_kept (h : updateTask fromisoformat uuid now db profiles id body email = .ok db')
    (ht : db.get id = some t) (hs : body.status.getD t.status = t.status) (hp : body.position = some newPos)
    (hactive : t.status ≠ .deleted ∧ t.status ≠ .archived ∧ t.status ≠ .completed)
    (hlevel : ∀ {a b ta tb}, a ≠ id → b ≠ id → InColumn db t.status a ta → InColumn db t.status b tb →
      rank ta = rank tb → a = b)
    (hreordered : Reordered db db' t.status id newPos) (includeEvals : Bool) :
    columnWithout includeEvals db t.status id = columnWithout includeEvals db' t.status id := by
  obtain ⟨-, hother⟩ := updateTask_moved h ht hs hp
  have hmem : ∀ j, j ∈ columnWithout includeEvals db t.status id ↔ j ∈ columnWithout includeEvals db' t.status id := by
    intro j
    rw [mem_columnWithout hactive, mem_columnWithout hactive]
    refine and_congr_right fun hj => ?_
    constructor
    · rintro ⟨row, hrow, heval⟩
      refine ⟨_, (inColumn_iff hother hj).mpr ⟨row, hrow, rfl⟩, ?_⟩
      rw [(makeRoom_shifted hrow.2).2.2]
      exact heval
    · rintro ⟨row', hrow', heval⟩
      obtain ⟨row, hrow, rfl⟩ := (inColumn_iff hother hj).mp hrow'
      rw [(makeRoom_shifted hrow.2).2.2] at heval
      exact ⟨row, hrow, heval⟩
  have hperm := (List.perm_ext_iff_of_nodup (columnWithout_nodup hactive) (columnWithout_nodup hactive)).mpr hmem
  refine listing_eq hperm (columnWithout_sorted hactive) (columnWithout_sorted hactive) ?_ ?_
  · intro a ha b hb
    obtain ⟨hane, ta, hta, -⟩ := (mem_columnWithout hactive).mp ha
    obtain ⟨hbne, tb, htb, -⟩ := (mem_columnWithout hactive).mp hb
    have hta' := (inColumn_iff hother hane).mpr ⟨ta, hta, rfl⟩
    have htb' := (inColumn_iff hother hbne).mpr ⟨tb, htb, rfl⟩
    rw [rankAt_eq hta.1, rankAt_eq htb.1, rankAt_eq hta'.1, rankAt_eq htb'.1]
    exact hreordered.kept hane hbne hta htb hta' htb'
  · intro a ha b hb heq
    obtain ⟨hane, ta, hta, -⟩ := (mem_columnWithout hactive).mp ha
    obtain ⟨hbne, tb, htb, -⟩ := (mem_columnWithout hactive).mp hb
    rw [rankAt_eq hta.1, rankAt_eq htb.1] at heq
    exact hlevel hane hbne hta htb heq

end Shown

/-! ## Two tasks at one position -/

/-- A card of the column `review`. -/
def card (position : Int) (createdAt : Timestamp) : Task where
  title := "card"
  description := none
  status := .review
  createdAt := createdAt
  updatedAt := createdAt
  category := none
  executeAt := none
  repeatInterval := none
  repeatUntil := none
  position := position
  output := none
  runnerLogs := none
  questions := none
  retryCount := 0
  heartbeatAt := none
  profileId := none
  createdBy := none
  updatedBy := none
  isEval := false
  tags := []

/-- Three cards, by their positions and times. -/
def cards (first second third : Int × Timestamp) : Db where
  nextId := 3
  get
    | 0 => some (card first.1 first.2)
    | 1 => some (card second.1 second.2)
    | 2 => some (card third.1 third.2)
    | _ => none
  fresh := by
    intro id hid
    match id, hid with
    | _ + 3, _ => rfl

/-- The last of three cards is moved to the top. -/
theorem reordered_distinct :
    ∃ db', updateTask (fun _ => none) (fun _ => none) 9 (cards (1, 5) (2, 6) (3, 7)) [] 2
        { noUpdate with position := some 1 } none = .ok db' ∧
      Reordered (cards (1, 5) (2, 6) (3, 7)) db' .review 2 1 := by
  obtain ⟨db', h⟩ : ∃ db', updateTask (fun _ => none) (fun _ => none) 9 (cards (1, 5) (2, 6) (3, 7)) [] 2
      { noUpdate with position := some 1 } none = .ok db' := ⟨_, rfl⟩
  have hrow : (cards (1, 5) (2, 6) (3, 7)).get 2 = some (card 3 7) := rfl
  refine ⟨db', h, (reordered_iff h hrow rfl rfl).mpr ?_⟩
  intro a b ta tb _ hb _ htb hmeet
  rcases hmeet with ⟨-, -, hposition⟩ | ⟨h, -, -⟩
  · match b, hb, htb with
    | 0, _, htb => exact absurd hposition (by rw [← Option.some.inj htb.1]; decide)
    | 1, _, htb => exact absurd hposition (by rw [← Option.some.inj htb.1]; decide)
    | _ + 3, _, htb => exact absurd htb.1 nofun
  · exact absurd h (by decide)

/-- The second of two cards at position 2 is moved to the top: the card there goes behind the
    first of the two. -/
theorem a_tie_is_reordered :
    ∃ db', updateTask (fun _ => none) (fun _ => none) 9 (cards (1, 7) (2, 5) (2, 6)) [] 2
        { noUpdate with position := some 1 } none = .ok db' ∧
      ¬ Reordered (cards (1, 7) (2, 5) (2, 6)) db' .review 2 1 := by
  refine ⟨_, rfl, ?_⟩
  intro h
  have hiff := h.kept (a := 0) (b := 1) (by decide) (by decide) ⟨rfl, rfl⟩ ⟨rfl, rfl⟩ ⟨rfl, rfl⟩ ⟨rfl, rfl⟩
  exact absurd (hiff.mp (by decide)) (by decide)

end Errand.Server.ColumnOrder

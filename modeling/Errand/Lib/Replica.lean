import Mathlib.Data.List.Basic
import Mathlib.Order.MinMax
import Mathlib.Order.Nat

/-
  Errand.Lib.Replica — one entry of a replica that is kept up to date by news and, now and
  then, replaced by what its origin holds.

  News are about one entry: it has been added, changed or removed. The replica adds an entry
  only if it has none, and changes one only if it has it. An entry can be held that is not
  shown; the origin holds shown ones only. `Chain` is a stretch of news that fits what the
  origin holds now; `Reflects` is an entry that comes to be the origin's when the news still
  to come have been told, also if news up to a position are lost on the way: those it holds.

  Rules:
  - `Chain.suffix`, `chain_append`: news that have been told, and news of a new step.
  - `reflects_snapshot`: what the origin holds, whatever news are still to come.
  - `reflects_append`, `reflects_hear`, `reflects_drop`: a step of the origin, news told,
    news lost.
-/

namespace Errand.Lib.Replica

variable {α : Type}

inductive News (α : Type) where
  | added (a : α)
  | changed (a : α)
  | removed

def News.adds : News α → Bool
  | .added _ => true
  | _ => false

def hear : Option α → News α → Option α
  | none, .added a => some a
  | some b, .added _ => some b
  | none, .changed _ => none
  | some _, .changed a => some a
  | _, .removed => none

def told (x : Option α) (news : List (News α)) : Option α := news.foldl hear x

section Shown

variable (visible : α → Bool)

def shown (x : Option α) : Option α := x.filter visible

/-- The entry as the news have it. -/
def News.reports : News α → Option α
  | .added a => shown visible (some a)
  | .changed a => shown visible (some a)
  | .removed => none

/-- News of a step of the origin: an entry is added once, when there has been none; one that
    is changed is held and stays shown, or is shown no more. -/
def Fits (fresh : Prop) (old new : Option α) : News α → Prop
  | .added a => fresh ∧ visible a = true ∧ new = some a
  | .changed a => new = shown visible (some a) ∧ (new.isSome = true → old.isSome = true)
  | .removed => new = none

/-- The last of the news says what the origin holds; none after the first adds the entry, and
    what is said to be gone stays so. -/
def Chain : List (News α) → Option α → Prop
  | [], _ => True
  | m :: news, v =>
    (news = [] → m.reports visible = v) ∧ (m.reports visible = none → m.adds = false ∧ v = none) ∧
      (∀ m' ∈ news, m'.adds = false) ∧ Chain news v

/-- Told the news that are to come, without any number of those up to the position at the
    front, the entry is what the origin holds. -/
def Reflects (x : Option α) (coming : List (Nat × News α)) (pos : Nat) (v : Option α) : Prop :=
  ∀ gone rest, coming = gone ++ rest → (∀ p ∈ gone, p.1 ≤ pos) →
    shown visible (told x (rest.map (·.2))) = v

end Shown

variable {visible : α → Bool}

theorem shown_some {a b : α} (h : shown visible (some a) = some b) : a = b ∧ visible b = true := by
  unfold shown at h
  rw [Option.filter_eq_some_iff] at h
  obtain ⟨ha, hb⟩ := h
  cases ha
  exact ⟨rfl, hb⟩

theorem shown_of_visible {a : α} (h : visible a = true) : shown visible (some a) = some a := by
  unfold shown
  rw [Option.filter_some, if_pos h]

/-! ## News that fit -/

theorem Chain.suffix {gone rest : List (News α)} {v : Option α} (h : Chain visible (gone ++ rest) v) :
    Chain visible rest v := by
  induction gone with
  | nil => exact h
  | cons m gone ih => exact ih h.2.2.2

theorem fits_reports {fresh : Prop} {old new : Option α} {m : News α} (h : Fits visible fresh old new m) :
    m.reports visible = new := by
  cases m with
  | added a =>
    obtain ⟨-, hv, rfl⟩ := h
    exact shown_of_visible hv
  | changed a => exact h.1.symm
  | removed => exact h.symm

theorem chain_append {fresh : Prop} {news : List (News α)} {old new : Option α} {m : News α}
    (h : Chain visible news old) (hm : Fits visible fresh old new m) (hfresh : fresh → news = []) :
    Chain visible (news ++ [m]) new := by
  induction news with
  | nil =>
    refine ⟨fun _ => fits_reports hm, ?_, fun _ hmem => absurd hmem List.not_mem_nil, trivial⟩
    intro hnone
    rw [fits_reports hm] at hnone
    refine ⟨?_, hnone⟩
    cases m with
    | added a =>
      obtain ⟨-, -, hnew⟩ := hm
      rw [hnone] at hnew
      cases hnew
    | changed a => rfl
    | removed => rfl
  | cons n news ih =>
    obtain ⟨-, hgone, hadds, hrest⟩ := h
    have hnotfresh : ¬ fresh := fun hf => List.cons_ne_nil n news (hfresh hf)
    refine ⟨fun hnil => absurd hnil (by simp), ?_, ?_, ih hrest fun hf => absurd hf hnotfresh⟩
    · intro hnone
      obtain ⟨hadd, hold⟩ := hgone hnone
      refine ⟨hadd, ?_⟩
      cases m with
      | added a => exact absurd hm.1 hnotfresh
      | changed a =>
        cases new with
        | none => rfl
        | some b =>
          have hsome := hm.2 rfl
          rw [hold] at hsome
          cases hsome
      | removed => exact hm
    · intro m' hm'
      rcases List.mem_append.mp hm' with hmem | hmem
      · exact hadds m' hmem
      · obtain rfl := List.mem_singleton.mp hmem
        cases m' with
        | added a => exact absurd hm.1 hnotfresh
        | changed a => rfl
        | removed => rfl

/-! ## What the news make of an entry -/

/-- An entry that is gone is shown no more, whatever was held. -/
theorem told_gone {news : List (News α)} (h : Chain visible news none) (hne : news ≠ []) (x : Option α) :
    shown visible (told x news) = none := by
  induction news generalizing x with
  | nil => exact absurd rfl hne
  | cons m news ih =>
    obtain ⟨hlast, hgone, -, hrest⟩ := h
    by_cases hnil : news = []
    · subst hnil
      have hreports := hlast rfl
      show shown visible (hear x m) = none
      cases m with
      | added a => cases (hgone hreports).1
      | changed a =>
        cases x with
        | none => rfl
        | some b => exact hreports
      | removed => cases x <;> rfl
    · exact ih hrest hnil _

/-- One that is held comes to be what the origin holds, unless it is added. -/
theorem told_held {news : List (News α)} {a : α} (h : Chain visible news (some a)) (hne : news ≠ [])
    {b : α} (hadds : ∀ m ∈ news.head?, m.adds = true → b = a) : shown visible (told (some b) news) = some a := by
  induction news generalizing b with
  | nil => exact absurd rfl hne
  | cons m news ih =>
    obtain ⟨hlast, hgone, hfirst, hrest⟩ := h
    have hfirst' : ∀ c : α, ∀ m' ∈ news.head?, m'.adds = true → c = a := by
      intro c m' hm' hadd
      rw [hfirst m' (List.mem_of_mem_head? hm')] at hadd
      cases hadd
    have hstay : m ≠ .removed := by
      rintro rfl
      cases (hgone rfl).2
    by_cases hnil : news = []
    · subst hnil
      have hreports := hlast rfl
      show shown visible (hear (some b) m) = some a
      cases m with
      | added c =>
        obtain rfl := hadds _ rfl rfl
        exact shown_of_visible (shown_some hreports).2
      | changed c => exact hreports
      | removed => exact absurd rfl hstay
    · cases m with
      | added c => exact ih hrest hnil (hfirst' b)
      | changed c => exact ih hrest hnil (hfirst' c)
      | removed => exact absurd rfl hstay

theorem told_snapshot {news : List (News α)} {v : Option α} (h : Chain visible news v) (hv : shown visible v = v) :
    shown visible (told v news) = v := by
  by_cases hne : news = []
  · subst hne
    exact hv
  · cases v with
    | none => exact told_gone h hne none
    | some a => exact told_held h hne fun _ _ _ => rfl

/-! ## An entry and the news to come -/

theorem reflects_snapshot {coming : List (Nat × News α)} {v : Option α} (h : Chain visible (coming.map (·.2)) v)
    (hv : shown visible v = v) (pos : Nat) : Reflects visible v coming pos v := by
  intro gone rest hsplit _
  rw [hsplit, List.map_append] at h
  exact told_snapshot h.suffix hv

theorem Reflects.now {x v : Option α} {pos : Nat} (h : Reflects visible x [] pos v) : shown visible x = v :=
  h [] [] rfl (List.forall_mem_nil _)

theorem reflects_append {fresh : Prop} {x : Option α} {coming : List (Nat × News α)} {pos n : Nat}
    {old new : Option α} {m : News α} (h : Reflects visible x coming pos old) (hm : Fits visible fresh old new m)
    (hfresh : fresh → x = none ∧ coming = []) (hn : pos < n) : Reflects visible x (coming ++ [(n, m)]) pos new := by
  intro gone rest hsplit hgone
  -- the news of this step are not among those that may be lost
  rcases List.eq_nil_or_concat rest with rfl | ⟨rest, p, rfl⟩
  · rw [List.append_nil] at hsplit
    have hle := hgone (n, m) (by rw [← hsplit]; simp)
    exact absurd hn (Nat.not_lt.mpr hle)
  · rw [List.concat_eq_append] at hsplit ⊢
    rw [← List.append_assoc] at hsplit
    obtain ⟨hcoming, hp⟩ := List.append_inj' hsplit rfl
    obtain rfl := List.singleton_inj.mp hp
    have hold := h gone rest hcoming hgone
    rw [List.map_append, told, List.foldl_append]
    show shown visible (hear (told x (rest.map (·.2))) m) = new
    cases m with
    | added a =>
      obtain ⟨hf, hv, rfl⟩ := hm
      obtain ⟨rfl, rfl⟩ := hfresh hf
      obtain ⟨-, rfl⟩ := List.append_eq_nil_iff.mp hcoming.symm
      exact shown_of_visible hv
    | changed a =>
      obtain ⟨hnew, hkept⟩ := hm
      cases hx : told x (rest.map (·.2)) with
      | none =>
        rw [hx] at hold
        cases new with
        | none => rfl
        | some b =>
          have hsome := hkept rfl
          rw [← hold] at hsome
          cases hsome
      | some b => exact hnew.symm
    | removed =>
      rw [show new = none from hm]
      cases told x (rest.map (·.2)) <;> rfl

theorem reflects_hear {x : Option α} {coming : List (Nat × News α)} {pos n : Nat} {v : Option α} {m : News α}
    (h : Reflects visible x ((n, m) :: coming) pos v) (hlater : ∀ p ∈ coming, n < p.1) :
    Reflects visible (hear x m) coming (min pos n) v := by
  intro gone rest hsplit hgone
  -- news that come later are not to be lost any more
  obtain rfl : gone = [] := by
    by_contra hne
    obtain ⟨p, gone, rfl⟩ := List.exists_cons_of_ne_nil hne
    have hlt := hlater p (by rw [hsplit]; simp)
    have hle := hgone p List.mem_cons_self
    omega
  rw [List.nil_append] at hsplit
  subst hsplit
  exact h [] ((n, m) :: coming) rfl (List.forall_mem_nil _)

theorem reflects_le {x : Option α} {coming : List (Nat × News α)} {pos pos' : Nat} {v : Option α}
    (h : Reflects visible x coming pos v) (hle : pos' ≤ pos) : Reflects visible x coming pos' v := by
  intro gone rest hsplit hgone
  exact h gone rest hsplit fun p hp => Nat.le_trans (hgone p hp) hle

theorem reflects_drop {x : Option α} {lost coming : List (Nat × News α)} {pos : Nat} {v : Option α}
    (h : Reflects visible x (lost ++ coming) pos v) (hlost : ∀ p ∈ lost, p.1 ≤ pos) :
    Reflects visible x coming pos v := by
  intro gone rest hsplit hgone
  refine h (lost ++ gone) rest ?_ ?_
  · rw [hsplit, List.append_assoc]
  · intro p hp
    rcases List.mem_append.mp hp with hmem | hmem
    · exact hlost p hmem
    · exact hgone p hmem

end Errand.Lib.Replica

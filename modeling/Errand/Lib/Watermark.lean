import Mathlib.Data.List.Induction
import Mathlib.Data.List.Perm.Subperm
import Mathlib.Data.Nat.Basic
import Mathlib.Order.Lattice

/-
  Errand.Lib.Watermark — items with a stamp, of which only those pass that are stamped later
  than the last one that passed.

  Rules:
  - `fresh_append`: a stream in pieces passes what the whole one does.
  - `fresh_pairwise`, `fresh_sublist`: what passes is stamped in strict order, and was there.
  - `fresh_old`, `fresh_new`: what a mark holds back, and what it lets through.
  - `fresh_resume`: a strictly ordered stream, read again from a place the mark has reached.
  - `strict_of_length`: only in strict order can as many pass as there are.
-/

namespace Errand.Lib.Watermark

variable {τ α : Type} [LinearOrder τ]

/-- Whether a mark holds a stamp back. -/
def held (last : Option τ) (t : τ) : Bool := last.any fun m => t ≤ m

def fresh (last : Option τ) : List (τ × α) → List (τ × α)
  | [] => []
  | p :: ps => if held last p.1 then fresh last ps else p :: fresh (some p.1) ps

/-- The mark behind a list of items. -/
def mark (last : Option τ) : List (τ × α) → Option τ
  | [] => last
  | p :: ps => if held last p.1 then mark last ps else mark (some p.1) ps

example : (fresh (some 1) [(1, 'a'), (2, 'b'), (2, 'c'), (3, 'd')], mark (some 1) [(3, 'd'), (2, 'e')]) =
    ([(2, 'b'), (3, 'd')], some 3) := by decide

theorem held_some {m t : τ} : held (some m) t = true ↔ t ≤ m := by
  rw [held, Option.any_some, decide_eq_true_eq]

theorem fresh_cons (last : Option τ) (p : τ × α) (ps : List (τ × α)) :
    fresh last (p :: ps) = if held last p.1 then fresh last ps else p :: fresh (some p.1) ps := rfl

theorem mark_cons (last : Option τ) (p : τ × α) (ps : List (τ × α)) :
    mark last (p :: ps) = if held last p.1 then mark last ps else mark (some p.1) ps := rfl

theorem fresh_append (last : Option τ) (ps qs : List (τ × α)) :
    fresh last (ps ++ qs) = fresh last ps ++ fresh (mark last ps) qs := by
  induction ps generalizing last with
  | nil => rfl
  | cons p ps ih =>
    simp only [List.cons_append, fresh_cons, mark_cons]
    split
    · exact ih last
    · rw [ih, List.cons_append]

theorem mark_append (last : Option τ) (ps qs : List (τ × α)) : mark last (ps ++ qs) = mark (mark last ps) qs := by
  induction ps generalizing last with
  | nil => rfl
  | cons p ps ih =>
    simp only [List.cons_append, mark_cons]
    split
    · exact ih last
    · exact ih _

theorem fresh_sublist (last : Option τ) (ps : List (τ × α)) : List.Sublist (fresh last ps) ps := by
  induction ps generalizing last with
  | nil => exact List.Sublist.refl _
  | cons p ps ih =>
    rw [fresh_cons]
    split
    · exact (ih last).cons p
    · exact (ih _).cons_cons p

theorem fresh_later (last : Option τ) (ps : List (τ × α)) : ∀ p ∈ fresh last ps, held last p.1 = false := by
  induction ps generalizing last with
  | nil => nofun
  | cons p ps ih =>
    intro q hq
    rw [fresh_cons] at hq
    split at hq
    · exact ih last q hq
    · rename_i hp
      rw [Bool.not_eq_true] at hp
      rcases List.mem_cons.mp hq with rfl | hq
      · exact hp
      · have hlater := ih _ q hq
        cases last with
        | none => rfl
        | some m =>
          rw [← Bool.not_eq_true, held_some, not_le] at hp hlater ⊢
          exact lt_trans hp hlater

theorem fresh_pairwise (last : Option τ) (ps : List (τ × α)) : ((fresh last ps).map Prod.fst).Pairwise (· < ·) := by
  induction ps generalizing last with
  | nil => exact List.Pairwise.nil
  | cons p ps ih =>
    rw [fresh_cons]
    split
    · exact ih last
    · rw [List.map_cons, List.pairwise_cons]
      refine ⟨fun t ht => ?_, ih _⟩
      obtain ⟨q, hq, rfl⟩ := List.mem_map.mp ht
      have hlater := fresh_later _ _ q hq
      rwa [← Bool.not_eq_true, held_some, not_le] at hlater

theorem fresh_old (last : Option τ) (old new : List (τ × α)) (h : ∀ p ∈ old, held last p.1 = true) :
    fresh last (old ++ new) = fresh last new ∧ mark last (old ++ new) = mark last new := by
  induction old with
  | nil => exact ⟨rfl, rfl⟩
  | cons p old ih =>
    rw [List.cons_append, fresh_cons, mark_cons, if_pos (h p (List.mem_cons_self ..)), if_pos (h p (List.mem_cons_self ..))]
    exact ih fun q hq => h q (List.mem_cons_of_mem _ hq)

theorem fresh_new (last : Option τ) {new : List (τ × α)} (hnew : (new.map Prod.fst).Pairwise (· < ·))
    (h : ∀ p ∈ new, held last p.1 = false) :
    fresh last new = new ∧ mark last new = (new.getLast?.map Prod.fst).or last := by
  induction new generalizing last with
  | nil => exact ⟨rfl, rfl⟩
  | cons p new ih =>
    rw [List.map_cons, List.pairwise_cons] at hnew
    have hp : ¬ held last p.1 = true := by
      rw [h p (List.mem_cons_self ..)]
      decide
    obtain ⟨hfresh, hmark⟩ := ih (some p.1) hnew.2 (fun q hq => by
      rw [← Bool.not_eq_true, held_some, not_le]
      exact hnew.1 q.1 (List.mem_map_of_mem hq))
    rw [fresh_cons, mark_cons, if_neg hp, if_neg hp, hfresh, hmark]
    refine ⟨rfl, ?_⟩
    cases new with
    | nil => rfl
    | cons q new =>
      rw [List.getLast?_cons_cons]
      simp [List.getLast?_cons]

theorem held_of_mem {stamps : List τ} (h : stamps.Pairwise (· < ·)) {t : τ} (ht : t ∈ stamps) :
    held stamps.getLast? t = true := by
  induction stamps using List.reverseRecOn with
  | nil => cases ht
  | append_singleton stamps m _ =>
    rw [List.getLast?_concat, held_some]
    rcases List.mem_append.mp ht with ht | ht
    · exact le_of_lt ((List.pairwise_append.mp h).2.2 t ht m (List.mem_singleton_self m))
    · exact le_of_eq (List.mem_singleton.mp ht)

theorem not_held_of_later {stamps : List τ} {t : τ} (h : ∀ m ∈ stamps, m < t) : held stamps.getLast? t = false := by
  cases hlast : stamps.getLast? with
  | none => rfl
  | some m =>
    rw [← Bool.not_eq_true, held_some, not_le]
    exact h m (List.mem_of_getLast? hlast)

/-- Read on from a place that the mark has reached, a strictly ordered stream passes what comes
    behind the mark, and no more. -/
theorem fresh_resume {stamps : List τ} (h : stamps.Pairwise (· < ·)) {j k n : Nat} (hkj : k ≤ j) {ps : List (τ × α)}
    (hps : ps.map Prod.fst = (stamps.drop k).take n) :
    fresh (stamps.take j).getLast? ps = ps.drop (j - k) ∧
      mark (stamps.take j).getLast? ps = (stamps.take (j + (n - (j - k)))).getLast? := by
  have hold : (ps.take (j - k)).map Prod.fst = ((stamps.take j).drop k).take n := by
    rw [List.map_take, hps, List.drop_take, List.take_take, List.take_take, Nat.min_comm]
  have hnew : (ps.drop (j - k)).map Prod.fst = (stamps.drop j).take (n - (j - k)) := by
    rw [List.map_drop, hps, List.drop_take, List.drop_drop, Nat.add_sub_cancel' hkj]
  have hparts : (stamps.take j ++ stamps.drop j).Pairwise (· < ·) := by rwa [List.take_append_drop]
  obtain ⟨hbefore, hbehind, hacross⟩ := List.pairwise_append.mp hparts
  have hheld : ∀ p ∈ ps.take (j - k), held (stamps.take j).getLast? p.1 = true := by
    intro p hp
    have hmem : p.1 ∈ (ps.take (j - k)).map Prod.fst := List.mem_map_of_mem hp
    rw [hold] at hmem
    exact held_of_mem hbefore (List.mem_of_mem_drop (List.mem_of_mem_take hmem))
  have hlater : ∀ p ∈ ps.drop (j - k), held (stamps.take j).getLast? p.1 = false := by
    intro p hp
    have hmem : p.1 ∈ (ps.drop (j - k)).map Prod.fst := List.mem_map_of_mem hp
    rw [hnew] at hmem
    exact not_held_of_later fun m hm => hacross m hm p.1 (List.mem_of_mem_take hmem)
  have hpass := fresh_old _ (ps.take (j - k)) (ps.drop (j - k)) hheld
  obtain ⟨hfresh, hmark⟩ := fresh_new (stamps.take j).getLast? (by rw [hnew]; exact hbehind.take) hlater
  rw [List.take_append_drop] at hpass
  rw [hpass.1, hpass.2]
  refine ⟨hfresh, ?_⟩
  rw [hmark, ← List.getLast?_map, hnew, List.take_add, List.getLast?_append]

/-- Stamps that pass in strict order, as many as there are, are all of them. -/
theorem strict_of_length {stamps passed : List τ} (hstamps : stamps.Pairwise (· ≤ ·)) (hpassed : passed.Pairwise (· < ·))
    (hsub : passed ⊆ stamps) (hlength : stamps.length ≤ passed.length) : stamps.Pairwise (· < ·) := by
  have hnodup : passed.Nodup := hpassed.imp ne_of_lt
  have hperm := (hnodup.subperm hsub).perm_of_length_le hlength
  have hdistinct : stamps.Nodup := hperm.nodup_iff.mp hnodup
  exact hstamps.and hdistinct |>.imp fun h => lt_of_le_of_ne h.1 h.2

end Errand.Lib.Watermark

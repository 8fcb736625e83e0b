import Mathlib.Data.List.Basic
import Mathlib.Data.List.Induction

/-
  Errand.Lib.Backoff — turns that may fail, and a window of suppressed turns behind each
  failure that widens with every failure in a row.

  A turn counter, the failures in a row and the turn the window ends at. A turn within the
  window is suppressed. Any other one passes, which leaves the window alone, or fails or
  succeeds. `Meets` has the outcomes a list of turns can have.

  Rules:
  - `failures_eq`: the failures counted are those since the last success.
  - `Meets.waits`: the turns suppressed next are exactly as many as the window has left.
  - `Meets.failed_waits`: behind the failure number `k` in a row, `window k - 1` of them.
  - `Meets.within`: windows of at most `cap` leave one of `cap` turns in a row unsuppressed.
-/

namespace Errand.Lib

structure Backoff where
  turn : Nat
  failures : Nat
  suppressUntil : Nat
  deriving DecidableEq, Repr

namespace Backoff

inductive Outcome where
  | suppressed
  | passed
  | failed
  | succeeded
  deriving DecidableEq, Repr

def start : Backoff := ⟨0, 0, 0⟩

variable (window : Nat → Nat)

def after (b : Backoff) : Outcome → Backoff
  | .suppressed => { b with turn := b.turn + 1 }
  | .passed => { b with turn := b.turn + 1 }
  | .failed => ⟨b.turn + 1, b.failures + 1, b.turn + 1 + window (b.failures + 1)⟩
  | .succeeded => ⟨b.turn + 1, 0, 0⟩

/-- The next turn is suppressed exactly if it lies within the window. -/
def Allows (b : Backoff) (o : Outcome) : Prop := o = .suppressed ↔ b.turn + 1 < b.suppressUntil

def Meets : Backoff → List Outcome → Prop
  | _, [] => True
  | b, o :: outcomes => b.Allows o ∧ Meets (b.after window o) outcomes

/-- The suppressed turns the window has left. -/
def left (b : Backoff) : Nat := b.suppressUntil - (b.turn + 1)

/-! ## The failures in a row -/

/-- The failures since the last success. -/
def consecutive (outcomes : List Outcome) : Nat :=
  (outcomes.reverse.takeWhile (· ≠ .succeeded)).count .failed

theorem consecutive_concat (outcomes : List Outcome) (o : Outcome) :
    consecutive (outcomes ++ [o]) =
      match o with
      | .succeeded => 0
      | .failed => consecutive outcomes + 1
      | _ => consecutive outcomes := by
  unfold consecutive
  rw [List.reverse_append, List.reverse_singleton, List.singleton_append]
  cases o <;> simp

def afterAll : Backoff → List Outcome → Backoff
  | b, [] => b
  | b, o :: outcomes => afterAll (b.after window o) outcomes

variable {window}

theorem afterAll_append (b : Backoff) (outcomes more : List Outcome) :
    b.afterAll window (outcomes ++ more) = (b.afterAll window outcomes).afterAll window more := by
  induction outcomes generalizing b with
  | nil => rfl
  | cons o outcomes ih => exact ih _

theorem failures_eq (outcomes : List Outcome) : (start.afterAll window outcomes).failures = consecutive outcomes := by
  induction outcomes using List.reverseRecOn with
  | nil => rfl
  | append_singleton outcomes o ih =>
    rw [afterAll_append, consecutive_concat]
    cases o with
    | suppressed => exact ih
    | passed => exact ih
    | failed => exact congrArg (· + 1) ih
    | succeeded => rfl

/-! ## The window -/

theorem Meets.drop {b : Backoff} {outcomes : List Outcome} (h : Meets window b outcomes) (i : Nat) :
    Meets window (b.afterAll window (outcomes.take i)) (outcomes.drop i) := by
  induction i generalizing b outcomes with
  | zero => exact h
  | succ i ih =>
    cases outcomes with
    | nil => exact trivial
    | cons o outcomes => exact ih h.2

theorem Meets.at {b : Backoff} {outcomes : List Outcome} (h : Meets window b outcomes) {i : Nat} {o : Outcome}
    (ho : outcomes[i]? = some o) :
    (b.afterAll window (outcomes.take i)).Allows o ∧
      b.afterAll window (outcomes.take (i + 1)) = (b.afterAll window (outcomes.take i)).after window o := by
  constructor
  · have hd := h.drop i
    rw [List.drop_eq_getElem?_toList_append, ho] at hd
    exact hd.1
  · rw [List.take_add_one, ho, afterAll_append]
    rfl

/-- A suppressed turn uses up one of those left. -/
theorem left_suppressed {b : Backoff} (h : b.Allows .suppressed) : (b.after window .suppressed).left + 1 = b.left := by
  have hlt := h.mp rfl
  unfold left after
  simp only
  omega

theorem Meets.waits {b : Backoff} {outcomes : List Outcome} (h : Meets window b outcomes) :
    (∀ j < b.left, ∀ o, outcomes[j]? = some o → o = .suppressed) ∧ outcomes[b.left]? ≠ some .suppressed := by
  induction outcomes generalizing b with
  | nil => simp
  | cons o outcomes ih =>
    obtain ⟨ho, h⟩ := h
    by_cases hs : o = .suppressed
    · subst hs
      have hleft := @left_suppressed window _ ho
      obtain ⟨hall, hend⟩ := ih h
      rw [← hleft]
      refine ⟨?_, hend⟩
      intro j hj p hp
      cases j with
      | zero =>
        cases hp
        rfl
      | succ j => exact hall j (by omega) p hp
    · have hzero : b.left = 0 := by
        have hnot : ¬ b.turn + 1 < b.suppressUntil := fun hlt => hs (ho.mpr hlt)
        unfold left
        omega
      rw [hzero]
      refine ⟨by omega, ?_⟩
      intro hp
      cases hp
      exact hs rfl

theorem left_failed (b : Backoff) : (b.after window .failed).left = window (b.failures + 1) - 1 := by
  unfold left after
  simp only
  omega

/-- Behind a turn that is not suppressed and does not fail, the next is not suppressed. -/
theorem left_open {b : Backoff} {o : Outcome} (h : b.Allows o) (hs : o ≠ .suppressed) (hf : o ≠ .failed) :
    (b.after window o).left = 0 := by
  have hnot : ¬ b.turn + 1 < b.suppressUntil := fun hlt => hs (h.mpr hlt)
  unfold left
  cases o with
  | suppressed => exact absurd rfl hs
  | failed => exact absurd rfl hf
  | passed =>
    show b.suppressUntil - (b.turn + 1 + 1) = 0
    omega
  | succeeded => exact Nat.zero_sub _

section Run

variable {outcomes : List Outcome} (h : Meets window start outcomes)
include h

/-- Behind a failure the window of that many failures in a row is waited out, no longer. -/
theorem Meets.failed_waits {i : Nat} (hi : outcomes[i]? = some .failed) :
    let k := consecutive (outcomes.take (i + 1))
    (∀ j, i < j → j < i + window k → ∀ o, outcomes[j]? = some o → o = .suppressed) ∧
      (0 < window k → outcomes[i + window k]? ≠ some .suppressed) := by
  intro k
  have hk : (start.afterAll window (outcomes.take i)).failures + 1 = k := by
    show _ = consecutive (outcomes.take (i + 1))
    rw [← @failures_eq window, (h.at hi).2]
    rfl
  have hleft : (start.afterAll window (outcomes.take (i + 1))).left = window k - 1 := by
    rw [(h.at hi).2, left_failed, hk]
  obtain ⟨hall, hend⟩ := (h.drop (i + 1)).waits
  rw [hleft] at hall hend
  simp only [List.getElem?_drop] at hall hend
  constructor
  · intro j hij hj o ho
    apply hall (j - (i + 1)) (by omega) o
    rw [Nat.add_sub_cancel' hij]
    exact ho
  · intro hpos
    have hidx : i + 1 + (window k - 1) = i + window k := by omega
    rwa [hidx] at hend

theorem Meets.open_next {i : Nat} {o : Outcome} (hi : outcomes[i]? = some o) (hs : o ≠ .suppressed) (hf : o ≠ .failed) :
    outcomes[i + 1]? ≠ some .suppressed := by
  have hend := (h.drop (i + 1)).waits.2
  rw [(h.at hi).2, left_open (h.at hi).1 hs hf, List.getElem?_drop] at hend
  exact hend

theorem Meets.left_lt {cap : Nat} (hcap : 0 < cap) (hw : ∀ k, window k ≤ cap) (i : Nat) :
    (start.afterAll window (outcomes.take i)).left < cap := by
  induction i with
  | zero => exact hcap
  | succ i ih =>
    cases ho : outcomes[i]? with
    | none =>
      rw [List.take_add_one, ho]
      simpa using ih
    | some o =>
      rw [(h.at ho).2]
      by_cases hs : o = .suppressed
      · subst hs
        have hleft := @left_suppressed window _ (h.at ho).1
        omega
      · by_cases hf : o = .failed
        · subst hf
          rw [left_failed]
          have hle := hw ((start.afterAll window (outcomes.take i)).failures + 1)
          omega
        · rw [left_open (h.at ho).1 hs hf]
          exact hcap

theorem Meets.within {cap : Nat} (hcap : 0 < cap) (hw : ∀ k, window k ≤ cap) {i : Nat} (hi : i + cap ≤ outcomes.length) :
    ∃ j o, i ≤ j ∧ j < i + cap ∧ outcomes[j]? = some o ∧ o ≠ .suppressed := by
  have hlt := h.left_lt hcap hw i
  have hend := (h.drop i).waits.2
  rw [List.getElem?_drop] at hend
  have hlen : i + (start.afterAll window (outcomes.take i)).left < outcomes.length := by omega
  rw [List.getElem?_eq_getElem hlen] at hend
  refine ⟨_, _, by omega, by omega, List.getElem?_eq_getElem hlen, ?_⟩
  intro ho
  exact hend (congrArg some ho)

end Run

end Backoff

end Errand.Lib

import Mathlib.Data.List.Basic
import Mathlib.Logic.Function.Basic

/-
  Errand.Lib.Transaction — changes that are made item by item on a pending copy of what is
  stored, and are stored by a commit after the last one.

  A step may refuse its item: the transaction ends there, and the copy is dropped. A keyed
  write changes what stands under the item's own key, by what stood there.

  Rules:
  - `runAll_stored`: until the commit nothing is stored.
  - `transact_refused` / `transact_accepted`: one item that is refused whatever is pending
    leaves what is stored; where none is, what is stored is the items' effect, in order.
  - `writeAll_mem` / `writeAll_other`: of keyed writes under keys that differ, each finds what
    stood there before any, and nothing else is written.
-/

namespace Errand.Lib.Transaction

universe u v w

variable {σ : Type u} {ι : Type v} {ε : Type w}

structure Txn (σ : Type u) where
  stored : σ
  pending : σ

/-- The items up to the first that is refused. -/
def runAll (step : σ → ι → Except ε σ) : Txn σ → List ι → Txn σ × Option ε
  | txn, [] => (txn, none)
  | txn, item :: items =>
    match step txn.pending item with
    | .ok pending => runAll step { txn with pending := pending } items
    | .error e => (txn, some e)

/-- What is stored after the items, and the refusal. -/
def transact (step : σ → ι → Except ε σ) (stored : σ) (items : List ι) : Option ε × σ :=
  match runAll step ⟨stored, stored⟩ items with
  | (txn, none) => (none, txn.pending)
  | (txn, some e) => (some e, txn.stored)

theorem runAll_stored (step : σ → ι → Except ε σ) (txn : Txn σ) (items : List ι) :
    (runAll step txn items).1.stored = txn.stored := by
  induction items generalizing txn with
  | nil => rfl
  | cons item items ih =>
    rw [runAll]
    split
    · exact ih _
    · rfl

theorem runAll_refused {step : σ → ι → Except ε σ} {items : List ι} {item : ι} (hmem : item ∈ items)
    (h : ∀ s, ∃ e, step s item = .error e) (txn : Txn σ) : ∃ e, (runAll step txn items).2 = some e := by
  induction items generalizing txn with
  | nil => cases hmem
  | cons first items ih =>
    rw [runAll]
    split
    · rename_i pending hok
      rcases List.mem_cons.mp hmem with rfl | hmem
      · obtain ⟨e, herror⟩ := h txn.pending
        cases hok.symm.trans herror
      · exact ih hmem _
    · exact ⟨_, rfl⟩

theorem transact_refused {step : σ → ι → Except ε σ} {items : List ι} {item : ι} (hmem : item ∈ items)
    (h : ∀ s, ∃ e, step s item = .error e) (stored : σ) :
    ∃ e, transact step stored items = (some e, stored) := by
  obtain ⟨e, he⟩ := runAll_refused hmem h ⟨stored, stored⟩
  have hstored := runAll_stored step ⟨stored, stored⟩ items
  rw [transact]
  rcases hrun : runAll step ⟨stored, stored⟩ items with ⟨txn, refusal⟩
  rw [hrun] at he hstored
  subst he
  exact ⟨e, congrArg (Prod.mk (some e)) hstored⟩

theorem runAll_accepted {step : σ → ι → Except ε σ} {effect : σ → ι → σ} {items : List ι}
    (h : ∀ item ∈ items, ∀ s, step s item = .ok (effect s item)) (txn : Txn σ) :
    runAll step txn items = ({ txn with pending := items.foldl effect txn.pending }, none) := by
  induction items generalizing txn with
  | nil => rfl
  | cons item items ih =>
    rw [runAll, h item List.mem_cons_self]
    exact ih (fun other hother => h other (List.mem_cons_of_mem _ hother)) _

theorem transact_accepted {step : σ → ι → Except ε σ} {effect : σ → ι → σ} {items : List ι}
    (h : ∀ item ∈ items, ∀ s, step s item = .ok (effect s item)) (stored : σ) :
    transact step stored items = (none, items.foldl effect stored) := by
  rw [transact, runAll_accepted h]

/-! ## Keyed writes -/

section Keyed

variable {κ : Type w} [DecidableEq κ] {α : Type u} (key : ι → κ) (write : ι → α → α)

def writeOne (s : κ → α) (item : ι) : κ → α := Function.update s (key item) (write item (s (key item)))

def writeAll (s : κ → α) (items : List ι) : κ → α := items.foldl (writeOne key write) s

variable {key write}

theorem writeAll_other {k : κ} {items : List ι} (h : ∀ item ∈ items, key item ≠ k) (s : κ → α) :
    writeAll key write s items k = s k := by
  induction items generalizing s with
  | nil => rfl
  | cons item items ih =>
    have hrest := ih (fun other hother => h other (List.mem_cons_of_mem _ hother)) (writeOne key write s item)
    exact hrest.trans (Function.update_of_ne (h item List.mem_cons_self).symm _ _)

theorem writeAll_mem {items : List ι} (hnodup : (items.map key).Nodup) {item : ι} (hmem : item ∈ items)
    (s : κ → α) : writeAll key write s items (key item) = write item (s (key item)) := by
  induction items generalizing s with
  | nil => cases hmem
  | cons first items ih =>
    obtain ⟨hfirst, hnodup⟩ := List.nodup_cons.mp hnodup
    have hother : ∀ other ∈ items, key other ≠ key first := by
      intro other hother heq
      exact hfirst (heq ▸ List.mem_map_of_mem hother)
    rcases List.mem_cons.mp hmem with rfl | hmem
    · exact (writeAll_other hother _).trans (Function.update_self ..)
    · have hrest := ih hnodup hmem (writeOne key write s first)
      have hkept : writeOne key write s first (key item) = s (key item) := Function.update_of_ne (hother item hmem) _ _
      rw [hkept] at hrest
      exact hrest

end Keyed

end Errand.Lib.Transaction

import Mathlib.Data.List.Nodup

/-
  Errand.Lib.Flagged — tables of which one row carries a flag.

  `OneFlagged p rows`: exactly one row of the table has the flag `p`, and none if there are
  no rows. It says nothing of keys; where the rows are distinct it is that the row with the
  flag is the only one (`oneFlagged_iff`).

  Rules: what a row added, rows taken away, and a change that leaves the flags alone do to
  it (`OneFlagged.append`, `OneFlagged.of_append`, `OneFlagged.filter_iff`, `oneFlagged_map`), and what they do to
  the keys of a table (`nodup_update`, `nodup_append`, `nodup_rekey`).
-/

namespace Errand.Lib

universe u v

variable {α : Type u} {κ : Type v}

def OneFlagged (p : α → Bool) (rows : List α) : Prop := rows.countP p = if rows.isEmpty then 0 else 1

instance (p : α → Bool) (rows : List α) : Decidable (OneFlagged p rows) := by unfold OneFlagged; infer_instance

theorem oneFlagged_nil (p : α → Bool) : OneFlagged p [] := rfl

theorem oneFlagged_of_ne {p : α → Bool} {rows : List α} (h : rows ≠ []) : OneFlagged p rows ↔ rows.countP p = 1 := by
  rw [OneFlagged, if_neg (by simpa using h)]

theorem oneFlagged_iff {p : α → Bool} {rows : List α} (hd : rows.Nodup) (h : rows ≠ []) :
    OneFlagged p rows ↔ ∃ r ∈ rows, p r = true ∧ ∀ s ∈ rows, p s = true → s = r := by
  rw [oneFlagged_of_ne h, List.countP_eq_length_filter]
  constructor
  · intro hlen
    obtain ⟨r, hr⟩ := List.length_eq_one_iff.mp hlen
    have hmem : ∀ s, s ∈ rows ∧ p s = true ↔ s = r := by
      intro s
      rw [← List.mem_filter, hr, List.mem_singleton]
    obtain ⟨hrows, hflag⟩ := (hmem r).mpr rfl
    exact ⟨r, hrows, hflag, fun s hs hflag => (hmem s).mp ⟨hs, hflag⟩⟩
  · intro hone
    rcases hone with ⟨r, hr, hflag, hunique⟩
    have hsame : ∀ s ∈ rows.filter p, s = r := by
      intro s hs
      obtain ⟨hs, hp⟩ := List.mem_filter.mp hs
      exact hunique s hs hp
    have hmem : r ∈ rows.filter p := List.mem_filter.mpr ⟨hr, hflag⟩
    have hle : (rows.filter p).length ≤ 1 := by
      have hnd := hd.filter p
      cases hf : rows.filter p with
      | nil => simp
      | cons a l =>
        rw [hf] at hnd hsame
        cases l with
        | nil => simp
        | cons b l =>
          have hab := (hsame a (by simp)).trans (hsame b (by simp)).symm
          simp [hab] at hnd
    have hpos := List.length_pos_of_mem hmem
    omega

/-- A table that is not empty has a row with the flag. -/
theorem OneFlagged.exists {p : α → Bool} {rows : List α} (h : OneFlagged p rows) (hne : rows ≠ []) :
    ∃ r ∈ rows, p r = true := by
  have hcount := (oneFlagged_of_ne hne).mp h
  exact List.countP_pos_iff.mp (by omega)

theorem OneFlagged.append {p : α → Bool} {rows new : List α} (h : OneFlagged p rows) (hne : rows ≠ [])
    (hnew : ∀ r ∈ new, p r = false) : OneFlagged p (rows ++ new) := by
  have hnone : new.countP p = 0 := by
    rw [List.countP_eq_zero]
    intro r hr
    simp [hnew r hr]
  rw [oneFlagged_of_ne (by simp [hne]), List.countP_append, hnone, (oneFlagged_of_ne hne).mp h]

/-- Rows without the flag are not the ones that keep a table at one. -/
theorem OneFlagged.of_append {p : α → Bool} {rows new : List α} (h : OneFlagged p (rows ++ new)) (hne : new ≠ [])
    (hnew : ∀ r ∈ new, p r = false) : rows ≠ [] ∧ OneFlagged p rows := by
  obtain ⟨r, hr, hflag⟩ := h.exists (by simp [hne])
  have hrows : r ∈ rows := by
    rcases List.mem_append.mp hr with hr | hr
    · exact hr
    · rw [hnew r hr] at hflag
      cases hflag
  have hnone : new.countP p = 0 := by
    rw [List.countP_eq_zero]
    intro r hr
    simp [hnew r hr]
  have hcount := (oneFlagged_of_ne (by simp [hne])).mp h
  rw [List.countP_append, hnone] at hcount
  exact ⟨List.ne_nil_of_mem hrows, (oneFlagged_of_ne (List.ne_nil_of_mem hrows)).mpr hcount⟩

theorem oneFlagged_map {p : α → Bool} {f : α → α} {rows : List α} (h : ∀ r ∈ rows, p (f r) = p r) :
    OneFlagged p (rows.map f) ↔ OneFlagged p rows := by
  have hcount : (rows.map f).countP p = rows.countP p := by
    rw [List.countP_map]
    refine List.countP_congr ?_
    intro r hr
    simp [h r hr]
  unfold OneFlagged
  rw [hcount, List.isEmpty_map]

/-- Rows taken away leave one with the flag exactly if it stays, or nothing does. -/
theorem OneFlagged.filter_iff {p : α → Bool} {rows : List α} (h : OneFlagged p rows) (q : α → Bool) :
    OneFlagged p (rows.filter q) ↔ (∀ r ∈ rows, p r = true → q r = true) ∨ ∀ r ∈ rows, q r = false := by
  by_cases hempty : rows.filter q = []
  · have hall : ∀ r ∈ rows, q r = false := by
      intro r hr
      simpa using List.filter_eq_nil_iff.mp hempty r hr
    rw [hempty]
    exact iff_of_true (oneFlagged_nil p) (.inr hall)
  · obtain ⟨s, hs⟩ := List.exists_mem_of_ne_nil _ hempty
    obtain ⟨hs, hqs⟩ := List.mem_filter.mp hs
    have hcount := (oneFlagged_of_ne (List.ne_nil_of_mem hs)).mp h
    rw [oneFlagged_of_ne hempty]
    constructor
    · intro hkept
      refine .inl ?_
      intro r hr hp
      by_contra hq
      have hsplit : rows.countP p = (rows.filter q).countP p + (rows.filter fun r => !q r).countP p := by
        rw [← List.countP_append]
        exact ((List.filter_append_perm q rows).countP_eq p).symm
      have hout : 0 < (rows.filter fun r => !q r).countP p := by
        rw [List.countP_pos_iff]
        exact ⟨r, List.mem_filter.mpr ⟨hr, by simpa using hq⟩, hp⟩
      omega
    · intro hcases
      rcases hcases with hstay | hnone
      · rw [List.countP_filter, ← hcount]
        refine List.countP_congr ?_
        intro r hr
        simp only [Bool.and_eq_true, and_iff_left_iff_imp]
        exact hstay r hr
      · rw [hnone s hs] at hqs
        cases hqs

/-! ## Keys -/

theorem nodup_update {key : α → κ} {f : α → α} {rows : List α} (hf : ∀ r ∈ rows, key (f r) = key r) :
    ((rows.map f).map key).Nodup ↔ (rows.map key).Nodup := by
  have hsame : (rows.map f).map key = rows.map key := by
    rw [List.map_map]
    exact List.map_congr_left hf
  rw [hsame]

theorem nodup_append {key : α → κ} {rows : List α} {r : α} (h : (rows.map key).Nodup)
    (hnew : ∀ s ∈ rows, key s ≠ key r) : ((rows ++ [r]).map key).Nodup := by
  rw [List.map_append, List.nodup_append]
  refine ⟨h, by simp, ?_⟩
  intro a ha b hb hab
  obtain ⟨s, hs, rfl⟩ := List.mem_map.mp ha
  simp only [List.map_cons, List.map_nil, List.mem_singleton] at hb
  exact hnew s hs (hab.trans hb)

/-- The rows of one key get another key that no other row has. -/
theorem nodup_rekey {ι : Type*} [DecidableEq ι] {id : α → ι} {key : α → κ} {f : α → α} {rows : List α} (i : ι)
    (hid : (rows.map id).Nodup) (h : (rows.map key).Nodup) (hother : ∀ r ∈ rows, id r ≠ i → f r = r)
    (hfree : ∀ r ∈ rows, id r = i → ∀ s ∈ rows, id s ≠ i → key s ≠ key (f r)) : ((rows.map f).map key).Nodup := by
  have hids := List.pairwise_map.mp hid
  have hkeys := List.pairwise_map.mp h
  refine List.pairwise_map.mpr (List.pairwise_map.mpr ?_)
  refine (hids.and hkeys).imp_of_mem ?_
  intro r s hr hs hne
  by_cases hri : id r = i
  · have hsi : id s ≠ i := fun hsi => hne.1 (hri.trans hsi.symm)
    rw [hother s hs hsi]
    exact (hfree r hr hri s hs hsi).symm
  · rw [hother r hr hri]
    by_cases hsi : id s = i
    · exact hfree s hs hsi r hr hri
    · rw [hother s hs hsi]
      exact hne.2

/-- A row is the only one with its key. -/
theorem eq_of_key {key : α → κ} {rows : List α} (h : (rows.map key).Nodup) {r s : α} (hr : r ∈ rows) (hs : s ∈ rows)
    (hk : key r = key s) : r = s := List.inj_on_of_nodup_map h hr hs hk

end Errand.Lib

import Mathlib.Data.List.Dedup
import Mathlib.Data.List.Nodup
import Mathlib.Data.List.Perm.Subperm

/-
  Errand.Lib.FreeNames — the first of infinitely many names that is not taken.

  Rules: of more names than are taken one is free (`exists_free`), so the first free one is
  found (`firstFree_spec`); numbers have different texts (`toString_injective`).
-/

namespace Errand.Lib.FreeNames

universe u

variable {α : Type u}

theorem exists_free (taken : List α) {name : Nat → α} (hinj : Function.Injective name) :
    ∃ n < taken.length + 1, name n ∉ taken := by
  by_contra hall
  push Not at hall
  have hsub : (List.range (taken.length + 1)).map name ⊆ taken := by
    intro p hp
    obtain ⟨n, hn, rfl⟩ := List.mem_map.mp hp
    exact hall n (List.mem_range.mp hn)
  have hnodup : ((List.range (taken.length + 1)).map name).Nodup := List.nodup_range.map hinj
  have hle := (hnodup.subperm hsub).length_le
  rw [List.length_map, List.length_range] at hle
  omega

def firstFree [DecidableEq α] (taken : List α) (name : Nat → α) : α :=
  (((List.range (taken.length + 1)).map name).find? fun a => a ∉ taken).getD (name 0)

theorem firstFree_spec [DecidableEq α] {taken : List α} {name : Nat → α} (hinj : Function.Injective name) :
    firstFree taken name ∉ taken ∧ ∃ n, firstFree taken name = name n := by
  obtain ⟨k, hk, hfree⟩ := exists_free taken hinj
  have hex : ∃ a ∈ (List.range (taken.length + 1)).map name, decide (a ∉ taken) = true :=
    ⟨name k, List.mem_map_of_mem (List.mem_range.mpr hk), decide_eq_true hfree⟩
  obtain ⟨a, ha⟩ := Option.isSome_iff_exists.mp (List.find?_isSome.mpr hex)
  have hfound := List.find?_some ha
  obtain ⟨n, -, hn⟩ := List.mem_map.mp (List.mem_of_find?_eq_some ha)
  unfold firstFree
  rw [ha, Option.getD_some]
  exact ⟨of_decide_eq_true hfound, n, hn.symm⟩

theorem toString_injective : Function.Injective (fun n : Nat => toString n) := by
  intro m n h
  have hdigits : Nat.toDigits 10 m = Nat.toDigits 10 n := by
    have := congrArg String.toList h
    simpa [toString, Nat.repr] using this
  rw [← Nat.ofDigitChars_toDigits (n := m) (b := 10) (by decide) (by decide), hdigits,
    Nat.ofDigitChars_toDigits (by decide) (by decide)]

end Errand.Lib.FreeNames

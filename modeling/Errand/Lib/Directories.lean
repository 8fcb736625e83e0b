import Mathlib.Data.List.Sort
import Mathlib.Data.String.Basic
import Errand.Lib.FileTree

/-
  Errand.Lib.Directories — the names in a directory, in order (`sorted(os.listdir(path))`),
  and members of an archive unpacked into a tree, each with the directories above it.

  Rules: a name is in a directory if something stands there (`mem_listdir`, `nodup_listdir`);
  what stands in an unpacked tree is a member or above one (`unpack_above`), a file there is a
  member (`unpack_file`); members none of which stands below another can be unpacked, and each
  is there (`unpack_members`).
-/

namespace Errand.Lib.FileTree

universe u

variable {α : Type u}

def isFile (t : FileTree α) (p : Path) : Bool :=
  match t.get? p with
  | some (.file _) => true
  | _ => false

def isDir (t : FileTree α) (p : Path) : Bool := decide (t.get? p = some .dir)

theorem isFile_iff {t : FileTree α} {p : Path} : t.isFile p = true ↔ ∃ content, t.get? p = some (.file content) := by
  unfold isFile
  split
  · rename_i content h
    exact iff_of_true rfl ⟨content, h⟩
  · rename_i h
    refine iff_of_false nofun ?_
    rintro ⟨content, hfile⟩
    exact h content hfile

/-! ## Names -/

/-- The name something has in a directory. -/
def nameIn (p k : Path) : Option String := if k.dropLast = p then k.getLast? else none

theorem nameIn_some {p k : Path} {c : String} : nameIn p k = some c ↔ k = p ++ [c] := by
  unfold nameIn
  constructor
  · intro h
    split at h
    · rename_i hp
      rw [← hp]
      exact (List.dropLast_append_getLast? c h).symm
    · cases h
  · rintro rfl
    rw [List.dropLast_concat, if_pos rfl, List.getLast?_concat]

def listdir (t : FileTree α) (p : Path) : List String :=
  (t.paths.filterMap (nameIn p)).insertionSort (· ≤ ·)

theorem mem_listdir {t : FileTree α} {p : Path} {c : String} : c ∈ t.listdir p ↔ t.get? (p ++ [c]) ≠ none := by
  unfold listdir
  rw [List.mem_insertionSort, List.mem_filterMap, ← mem_paths]
  constructor
  · rintro ⟨k, hk, hc⟩
    rwa [nameIn_some.mp hc] at hk
  · intro hmem
    exact ⟨p ++ [c], hmem, nameIn_some.mpr rfl⟩

theorem nodup_listdir (t : FileTree α) (p : Path) : (t.listdir p).Nodup := by
  unfold listdir
  rw [(List.perm_insertionSort ..).nodup_iff]
  refine (List.nodup_dedup _).filterMap fun k k' c hk hk' => ?_
  rw [nameIn_some.mp hk, nameIn_some.mp hk']

/-! ## Archives -/

def unpackOne (t : FileTree α) (m : Path × α) : Option (FileTree α) :=
  (t.makedirs m.1.dropLast).bind fun t => t.put m.1 m.2

def unpack : List (Path × α) → FileTree α → Option (FileTree α)
  | [], t => some t
  | m :: ms, t => (unpackOne t m).bind (unpack ms)

theorem get?_unpackOne {t t' : FileTree α} {m : Path × α} (h : unpackOne t m = some t') (k : Path) :
    t'.get? k = if m.1 = k then some (.file m.2)
      else if k ≠ [] ∧ k <+: m.1.dropLast then some .dir else t.get? k := by
  obtain ⟨u, hu, h⟩ := Option.bind_eq_some_iff.mp h
  rw [get?_put h k, get?_makedirs hu k]

/-- What stands in an unpacked tree was there, or is a member or above one. -/
theorem unpack_above {ms : List (Path × α)} {t t' : FileTree α} (h : unpack ms t = some t') {p : Path}
    (hp : t'.get? p ≠ none) : t.get? p ≠ none ∨ ∃ m ∈ ms, p <+: m.1 := by
  induction ms generalizing t with
  | nil =>
    cases h
    exact .inl hp
  | cons m ms ih =>
    obtain ⟨u, hu, h⟩ := Option.bind_eq_some_iff.mp h
    rcases ih h with hthere | ⟨m', hm', hpre⟩
    · rw [get?_unpackOne hu] at hthere
      split at hthere
      · rename_i heq
        exact .inr ⟨m, List.mem_cons_self, heq ▸ List.prefix_refl _⟩
      · split at hthere
        · rename_i hdir
          exact .inr ⟨m, List.mem_cons_self, hdir.2.trans (List.dropLast_prefix _)⟩
        · exact .inl hthere
    · exact .inr ⟨m', List.mem_cons_of_mem m hm', hpre⟩

theorem unpack_file {ms : List (Path × α)} {t t' : FileTree α} (h : unpack ms t = some t') {p : Path} {content : α}
    (hp : t'.get? p = some (.file content)) : t.get? p = some (.file content) ∨ (p, content) ∈ ms := by
  induction ms generalizing t with
  | nil =>
    cases h
    exact .inl hp
  | cons m ms ih =>
    obtain ⟨u, hu, h⟩ := Option.bind_eq_some_iff.mp h
    rcases ih h with hthere | hmem
    · rw [get?_unpackOne hu] at hthere
      split at hthere
      · rename_i heq
        cases hthere
        subst heq
        exact .inr List.mem_cons_self
      · split at hthere
        · cases hthere
        · exact .inl hthere
    · exact .inr (List.mem_cons_of_mem m hmem)

/-- Members can be unpacked where no file stands at or above one, and nothing at one. -/
def Fits (t : FileTree α) (m : Path × α) : Prop :=
  m.1 ≠ [] ∧ t.get? m.1 ≠ some .dir ∧ ∀ b, b ≠ [] → b <+: m.1.dropLast → ∀ a, t.get? b ≠ some (.file a)

theorem unpackOne_isSome {t : FileTree α} {m : Path × α} (h : Fits t m) : ∃ t', unpackOne t m = some t' := by
  obtain ⟨hne, hdir, hfiles⟩ := h
  obtain ⟨u, hu⟩ := Option.isSome_iff_exists.mp (makedirs_isSome_iff.mpr hfiles)
  have hlast : m.1 = m.1.dropLast ++ [m.1.getLast hne] := (List.dropLast_append_getLast hne).symm
  have hstands : u.Stands m.1 := by
    refine ⟨hne, fun a ha => ?_⟩
    rw [hlast] at ha
    rw [get?_makedirs hu, if_pos (mem_above_concat.mp ha)]
  have hnot : u.get? m.1 ≠ some .dir := by
    rw [get?_makedirs hu, if_neg]
    · exact hdir
    · rintro ⟨-, hpre⟩
      have hlen := hpre.length_le
      rw [List.length_dropLast] at hlen
      have hpos := List.length_pos_of_ne_nil hne
      omega
  unfold unpackOne
  rw [hu, Option.bind_some, put, dif_pos ⟨hstands, hnot⟩]
  exact ⟨_, rfl⟩

/-- Of two paths neither is above the other. -/
def Apart (p q : Path) : Prop := ¬ p <+: q ∧ ¬ q <+: p

theorem Apart.ne {p q : Path} (h : Apart p q) : p ≠ q := by
  rintro rfl
  exact h.1 (List.prefix_refl p)

theorem Apart.not_above {p q : Path} (h : Apart p q) : ¬ q <+: p.dropLast :=
  fun hpre => h.2 (hpre.trans (List.dropLast_prefix p))

theorem unpackOne_fits {t t' : FileTree α} {m m' : Path × α} (h : unpackOne t m = some t') (hapart : Apart m.1 m'.1)
    (hfits : Fits t m') : Fits t' m' := by
  obtain ⟨hne, hdir, hfiles⟩ := hfits
  refine ⟨hne, ?_, fun b hb hpre a => ?_⟩
  · rw [get?_unpackOne h, if_neg hapart.ne, if_neg fun hbelow => hapart.not_above hbelow.2]
    exact hdir
  · rw [get?_unpackOne h, if_neg]
    · split
      · exact nofun
      · exact hfiles b hb hpre a
    · intro heq
      subst heq
      exact hapart.1 (hpre.trans (List.dropLast_prefix _))

theorem unpackOne_keeps {t t' : FileTree α} {m : Path × α} (h : unpackOne t m = some t') {p : Path} (hapart : Apart m.1 p) :
    t'.get? p = t.get? p := by
  rw [get?_unpackOne h, if_neg hapart.ne, if_neg fun hbelow => hapart.not_above hbelow.2]

theorem unpack_keeps {ms : List (Path × α)} {t t' : FileTree α} (h : unpack ms t = some t') {p : Path}
    (hapart : ∀ m ∈ ms, Apart m.1 p) : t'.get? p = t.get? p := by
  induction ms generalizing t with
  | nil =>
    cases h
    rfl
  | cons m ms ih =>
    obtain ⟨u, hu, h⟩ := Option.bind_eq_some_iff.mp h
    rw [ih h fun m' hm' => hapart m' (List.mem_cons_of_mem m hm'), unpackOne_keeps hu (hapart m List.mem_cons_self)]

/-- Members none of which stands below another. -/
theorem unpack_members {ms : List (Path × α)} {t : FileTree α} (hfits : ∀ m ∈ ms, Fits t m)
    (hapart : ms.Pairwise fun m m' => Apart m.1 m'.1) :
    ∃ t', unpack ms t = some t' ∧ ∀ m ∈ ms, t'.get? m.1 = some (.file m.2) := by
  induction ms generalizing t with
  | nil => exact ⟨t, rfl, nofun⟩
  | cons m ms ih =>
    obtain ⟨hm, hms⟩ := List.pairwise_cons.mp hapart
    obtain ⟨u, hu⟩ := unpackOne_isSome (hfits m List.mem_cons_self)
    obtain ⟨t', ht', hall⟩ := ih (fun m' hm' => unpackOne_fits hu (hm m' hm') (hfits m' (List.mem_cons_of_mem m hm'))) hms
    refine ⟨t', ?_, fun m' hm' => ?_⟩
    · rw [unpack, hu, Option.bind_some, ht']
    · rcases List.mem_cons.mp hm' with rfl | hm'
      · rw [unpack_keeps ht' fun k hk => (hm k hk).symm, get?_unpackOne hu, if_pos rfl]
      · exact hall m' hm'

end Errand.Lib.FileTree
